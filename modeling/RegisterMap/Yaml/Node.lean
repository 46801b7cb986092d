import RegisterMap.Yaml.Token

/-!
# YAML nodes

The tree of a document from its tokens. A node may have a number, and a reference stands for the
node of its number, so that the tree has no bounds when it is followed. Main definition:
`Node.ofTokens?`.
-/

namespace RegisterMap.Yaml

/-- A part of a document. -/
inductive Node
  /-- It stands for the node of the number. -/
  | reference (id : Nat)
  /-- A node with a number by which others refer to it. -/
  | anchored (id : Nat) (n : Node)
  | scalar (tag : Option Tag) (d : Datum)
  | list (tag : Option Tag) (items : List Node)
  | record (tag : Option Tag) (entries : List (Node × Node))
  deriving Repr, Inhabited

namespace Node

/-- What stands where nothing is written. -/
def empty : Node := scalar none (.bare "")

/-- The node with a number, if it has one. -/
def withAnchor (id : Option Nat) (n : Node) : Node :=
  match id with
  | some id => anchored id n
  | none => n

/-! ## Tokens -/

/-- Where a node stands. -/
inductive Position
  | inBrackets
  | inBlock
  /-- Behind a key, in whose column the items of a list may stand. -/
  | behindKey
  deriving DecidableEq, Repr

/-- What stands in front of a node. -/
structure Front where
  anchor : Option Nat := none
  tag : Option Octets := none
  deriving DecidableEq, Repr, Inhabited

namespace Front

/-- Reads an anchor and a tag, in either order and both of them or not. -/
def read? (handles : Handles) : List Token → Option (Front × List Token)
  | .anchor id :: .tag t :: rest => do return (⟨some id, ← t.octets? handles⟩, rest)
  | .tag t :: .anchor id :: rest => do return (⟨some id, ← t.octets? handles⟩, rest)
  | .anchor id :: rest => some (⟨some id, none⟩, rest)
  | .tag t :: rest => do return (⟨none, ← t.octets? handles⟩, rest)
  | rest => some ({}, rest)

def isEmpty (f : Front) : Bool := f.anchor.isNone && f.tag.isNone

/-- The node of a scalar. A mark alone says nothing about it. -/
def scalar (f : Front) (d : Datum) : Node :=
  withAnchor f.anchor
    (.scalar ((f.tag.filter (· != Octets.ofString "!")).map tagOf) d)

/-- The node where nothing but its front is written. -/
def nothing (f : Front) : Node := withAnchor f.anchor (.scalar (f.tag.map tagOf) (.bare ""))

def list (f : Front) (items : List Node) : Node :=
  withAnchor f.anchor (.list (f.tag.map tagOf) items)

def record (f : Front) (entries : List (Node × Node)) : Node :=
  withAnchor f.anchor (.record (f.tag.map tagOf) entries)

end Front

/-- The token begins another part of a block, or ends it. -/
def endsBlockPart : Token → Bool
  | .key => true
  | .value => true
  | .blockEnd => true
  | _ => false

/-- The token separates parts between brackets, or ends them. -/
def endsPart : Token → Bool
  | .comma => true
  | .closeList => true
  | .closeRecord => true
  | _ => false

mutual

/-- Reads a node. Each reading counts down, and a token is worth four steps. -/
def node? (handles : Handles) : Nat → Position → List Token → Option (Node × List Token)
  | 0, _, _ => none
  | fuel + 1, position, ts =>
    match ts with
    | .reference id :: rest => some (.reference id, rest)
    | ts => do
      let (front, rest) ← Front.read? handles ts
      let isBlock := position != .inBrackets
      match rest with
      | .scalar d :: rest => return (front.scalar d, rest)
      | .openList :: rest =>
        let (items, rest) ← items? handles fuel true rest
        return (front.list items, rest)
      | .openRecord :: rest =>
        let (entries, rest) ← entries? handles fuel true rest
        return (front.record entries, rest)
      | t :: behind =>
        match t, isBlock, position == .behindKey with
        | .item, _, true =>
          let (items, rest) ← bareItems? handles fuel rest
          return (front.list items, rest)
        | .blockList, true, _ =>
          let (items, rest) ← blockItems? handles fuel behind
          return (front.list items, rest)
        | .blockRecord, true, _ =>
          let (entries, rest) ← blockEntries? handles fuel behind
          return (front.record entries, rest)
        | _, _, _ => if front.isEmpty then none else return (front.nothing, rest)
      | [] => if front.isEmpty then none else return (front.nothing, rest)

/-- Reads a part of a block, which is empty where another part begins. -/
def part? (handles : Handles) : Nat → Position → List Token → Option (Node × List Token)
  | 0, _, _ => none
  | fuel + 1, position, ts =>
    if ts.head?.any endsBlockPart then some (empty, ts) else node? handles fuel position ts

/-- Reads the items of a list up to the end of its block. -/
def blockItems? (handles : Handles) : Nat → List Token → Option (List Node × List Token)
  | 0, _ => none
  | fuel + 1, ts =>
    match ts with
    | .blockEnd :: rest => some ([], rest)
    | .item :: .item :: rest => do
      let (ns, rest) ← blockItems? handles fuel (.item :: rest)
      return (empty :: ns, rest)
    | .item :: .blockEnd :: rest => some ([empty], rest)
    | .item :: rest => do
      let (n, rest) ← node? handles fuel .inBlock rest
      let (ns, rest) ← blockItems? handles fuel rest
      return (n :: ns, rest)
    | _ => none

/-- Reads the items of a list that has no block of its own, as far as they go. -/
def bareItems? (handles : Handles) : Nat → List Token → Option (List Node × List Token)
  | 0, _ => none
  | fuel + 1, ts =>
    match ts with
    | .item :: .item :: rest => do
      let (ns, rest) ← bareItems? handles fuel (.item :: rest)
      return (empty :: ns, rest)
    | .item :: rest => do
      let (n, rest) ← part? handles fuel .inBlock rest
      let (ns, rest) ← bareItems? handles fuel rest
      return (n :: ns, rest)
    | rest => some ([], rest)

/-- Reads the entries of a record up to the end of its block. -/
def blockEntries? (handles : Handles) : Nat → List Token → Option (List (Node × Node) × List Token)
  | 0, _ => none
  | fuel + 1, ts =>
    match ts with
    | .blockEnd :: rest => some ([], rest)
    | .key :: rest => do
      let (k, rest) ← part? handles fuel .behindKey rest
      let (v, rest) ←
        match rest with
        | .value :: rest => part? handles fuel .behindKey rest
        | rest => some (empty, rest)
      let (es, rest) ← blockEntries? handles fuel rest
      return ((k, v) :: es, rest)
    | _ => none

/-- Reads the value behind a key between brackets. -/
def valuePart? (handles : Handles) : Nat → List Token → Option (Node × List Token)
  | 0, _ => none
  | fuel + 1, ts =>
    match ts with
    | .value :: rest =>
      if rest.head?.any endsPart then some (empty, rest) else node? handles fuel .inBrackets rest
    | rest => some (empty, rest)

/-- Reads the items of a list up to its closing bracket; one may begin at once or only behind a
comma. An entry in the place of an item is a record. -/
def items? (handles : Handles) : Nat → (atOnce : Bool) → List Token →
    Option (List Node × List Token)
  | 0, _, _ => none
  | fuel + 1, atOnce, ts =>
    match atOnce, ts with
    | _, .closeList :: rest => some ([], rest)
    | false, .comma :: rest => items? handles fuel true rest
    | true, .key :: rest => do
      let (k, rest) ←
        match rest with
        | .value :: rest => some (empty, rest)
        | .comma :: rest => some (empty, rest)
        | .closeList :: rest => some (empty, rest)
        | rest => node? handles fuel .inBrackets rest
      let (v, rest) ← valuePart? handles fuel rest
      let (ns, rest) ← items? handles fuel false rest
      return (.record none [(k, v)] :: ns, rest)
    | true, ts => do
      let (n, rest) ← node? handles fuel .inBrackets ts
      let (ns, rest) ← items? handles fuel false rest
      return (n :: ns, rest)
    | false, _ => none

/-- Reads the entries of a record up to its closing brace; one may begin at once or only behind a
comma. A key alone is an entry. -/
def entries? (handles : Handles) : Nat → (atOnce : Bool) → List Token →
    Option (List (Node × Node) × List Token)
  | 0, _, _ => none
  | fuel + 1, atOnce, ts =>
    match atOnce, ts with
    | _, .closeRecord :: rest => some ([], rest)
    | false, .comma :: rest => entries? handles fuel true rest
    | true, .key :: rest => do
      let (k, rest) ←
        if rest.head?.any fun t => endsPart t || t matches .value then some (empty, rest)
        else node? handles fuel .inBrackets rest
      let (v, rest) ← valuePart? handles fuel rest
      let (es, rest) ← entries? handles fuel false rest
      return ((k, v) :: es, rest)
    | true, ts => do
      let (k, rest) ← node? handles fuel .inBrackets ts
      let (es, rest) ← entries? handles fuel false rest
      return ((k, empty) :: es, rest)
    | false, _ => none

end

/-! ## Documents -/

/-- The directives in front of a document, and what follows them. -/
def directives : List Token → List Directive × List Token
  | .directive d :: rest => (d :: (directives rest).1, (directives rest).2)
  | rest => ([], rest)

/-- Nothing is written between the marks of a document. -/
def endsDocument : Token → Bool
  | .directive _ => true
  | .documentStart => true
  | .documentEnd => true
  | _ => false

/-- The root of the one document that consists of the tokens. A mark must begin it when directives
stand in front of it. -/
def ofTokens? (ts : List Token) : Option Node := do
  let fuel := 4 * ts.length + 4
  let (n, rest) ←
    match directives ts with
    | ([], .documentStart :: rest) => content? Handles.usual fuel rest
    | ([], rest) => node? Handles.usual fuel .inBlock rest
    | (ds, .documentStart :: rest) => do content? (← Directive.handles? ds) fuel rest
    | _ => none
  guard (rest.all (· matches .documentEnd))
  return n
where
  /-- Reads what a document holds behind its mark. -/
  content? (handles : Handles) (fuel : Nat) (ts : List Token) : Option (Node × List Token) :=
    if ts.head?.all endsDocument then some (empty, ts) else node? handles fuel .inBlock ts

end Node

end RegisterMap.Yaml
