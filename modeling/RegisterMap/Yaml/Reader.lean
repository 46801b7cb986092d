import RegisterMap.Yaml.Node

/-!
# Reading YAML

The value of a text of one document. References are followed wherever a value is wanted, and only
there, since a document may refer to itself. Main definition: `read?`.
-/

namespace RegisterMap.Yaml

namespace Node

mutual

/-- The nodes with a number, in the order in which they begin. -/
def anchors : Node → List (Nat × Node)
  | reference _ => []
  | anchored id n => (id, n) :: anchors n
  | scalar _ _ => []
  | list _ items => anchorsOfItems items
  | record _ entries => anchorsOfEntries entries

def anchorsOfItems : List Node → List (Nat × Node)
  | [] => []
  | n :: ns => anchors n ++ anchorsOfItems ns

def anchorsOfEntries : List (Node × Node) → List (Nat × Node)
  | [] => []
  | (k, v) :: es => anchors k ++ anchors v ++ anchorsOfEntries es

end

mutual

/-- The number of scalars, references, and ends of lists and records in the node. -/
def size : Node → Nat
  | reference _ => 1
  | anchored _ n => size n
  | scalar _ _ => 1
  | list _ items => sizeOfItems items + 2
  | record _ entries => sizeOfEntries entries + 2

def sizeOfItems : List Node → Nat
  | [] => 0
  | n :: ns => size n + sizeOfItems ns

def sizeOfEntries : List (Node × Node) → Nat
  | [] => 0
  | (k, v) :: es => size k + size v + sizeOfEntries es

end

/-- The node without its number. -/
def content : Node → Node
  | anchored _ n => n.content
  | n => n

end Node

/-- How far a reading goes: which keys have a value that is wanted, and which nodes the references
stand for, those that begin last in front. -/
structure Reach where
  isWanted : Datum → Bool
  anchors : List (Nat × Node)

/-- A reading that may follow so many more references. -/
abbrev Following := StateM Nat

namespace Reach

/-- The node that a node stands for, unless no more references may be followed. -/
def follow (r : Reach) (n : Node) : Following (Option Node) :=
  match n with
  | .reference id => do
    match ← get with
    | 0 => return none
    | left + 1 =>
      set left
      return (r.anchors.lookup id).map Node.content
  | n => return some n.content

/-- A value under the tag of its node. -/
def underTag (tag : Option Tag) (d : Datum) : Datum :=
  match tag with
  | some t => .tagged t d
  | none => d

/-- The value of a key, which no list and no record can be. -/
def key (r : Reach) (n : Node) : Following Datum := do
  match ← r.follow n with
  | some (.scalar tag d) => return underTag tag d
  | _ => return .garbled

/-- The value of a node, in which lists and records stand in each other to a depth. What is out of
reach cannot be read. -/
def value (r : Reach) : (depth : Nat) → Node → Following Datum
  | 0, n => r.key n
  | depth + 1, n => do
    match ← r.follow n with
    | some (.scalar tag d) => return underTag tag d
    | some (.list tag items) => return underTag tag (.list (← items.mapM (value r depth)))
    | some (.record tag entries) =>
      let entries ← entries.mapM fun (k, v) => do
        let k ← r.key k
        if r.isWanted k then return (k, ← value r depth v) else return (k, .null)
      return underTag tag (.record entries)
    | _ => return .garbled

end Reach

/-- Lists and records may stand in each other to this depth. -/
def maxDepth : Nat := 128

/-- How many references may be followed for each part of a document. -/
def followsPerPart : Nat := 100

/-- The value of a text, in which only the values under wanted keys are looked at. An empty text
has none. -/
def read? (isWanted : Datum → Bool) (s : String) : Option Datum := do
  let cs := s.toList
  guard (cs.all isAllowed)
  let n ← Node.ofTokens? (← Token.ofGlyphs? (Glyph.ofChars {} cs))
  return (Reach.value ⟨isWanted, n.anchors.reverse⟩ maxDepth n (followsPerPart * n.size)).1

end RegisterMap.Yaml
