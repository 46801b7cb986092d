import RegisterMap.CText
import RegisterMap.Layout

/-!
# Structure members

The members of the C structures of a header, with the comments that tell their offsets, and their
text. Gaps become members of the widest type that their place and size allow.
-/

namespace RegisterMap

/-- What a comment tells about a member. -/
structure Note where
  offset : Nat
  text : String
  deriving DecidableEq, Repr, Inhabited

/-- The kind of a nested member. -/
inductive Nesting
  | union
  | struct
  /-- A named structure, or an array of so many. -/
  | cluster (name : String) (count : Option Nat)
  deriving DecidableEq, Repr, Inhabited

/-- A member of a C structure. -/
inductive Member
  | word (qualifier : String) (type : WordType) (name : String) (count : Option Nat)
      (note : Option Note)
  | nested (kind : Nesting) (note : Note) (members : List Member)
  deriving Repr, Inhabited

namespace Member

/-- The name with the number of elements of an array. -/
def declarator (name : String) : Option Nat → String
  | none => name
  | some n => s!"{name}[{n}]"

/-- A line of code with a comment on it. -/
def annotated (line : String) (note : Note) : String :=
  s!"{Text.padEnd 47 line} /**< {Text.hex note.offset 4}: " ++
    s!"{Text.padEnd 60 (CText.comment note.text)} */"

/-- The line that opens a nested member. -/
def opening : Nesting → String
  | .union => "union \x7b"
  | .struct => "struct \x7b"
  | .cluster _ _ => "struct \x7b /* (cluster) */"

/-- The line that closes a nested member. -/
def closing : Nesting → String
  | .union => "\x7d;"
  | .struct => "\x7d;"
  | .cluster name count => "\x7d " ++ declarator name count ++ ";"

mutual

/-- The lines of a member, so many columns from the left. -/
def lines (indent : Nat) : Member → List String
  | word qualifier type name count note =>
    let line :=
      Text.padEnd indent "" ++
        s!"{Text.padEnd 4 qualifier} {Text.padEnd 9 type.name} {declarator name count};"
    [match note with
      | some note => annotated line note
      | none => line]
  | nested kind note members =>
    annotated (Text.padEnd indent "" ++ opening kind) note ::
      linesOf (indent + 3) members ++ [Text.padEnd indent "" ++ closing kind]

/-- The lines of several members. -/
def linesOf (indent : Nat) : List Member → List String
  | [] => []
  | m :: ms => m.lines indent ++ linesOf indent ms

end

/-! ## Members of declarations -/

/-- The name of one element of an array. -/
def elementName (name : String) (d : Option Dim) (i : Nat) : String :=
  match d with
  | some d => Placeholder.fill (d.indexText i) name
  | none => name

/-- The member for a gap, and the number of gaps so far. -/
def ofGap (bytePadding : Bool) (gaps offset size : Nat) : List Member × Nat :=
  let words (qualifier mark : String) (type : WordType) : Member :=
    let count := size / type.bytes
    .word qualifier type s!"RESERVED{mark}{gaps}" (if 1 < count then some count else none) none
  if size = 0 then ([], gaps)
  else if bytePadding then ([words "" "_" .word8], gaps + 1)
  else if size % 4 = 0 ∧ offset % 4 = 0 then ([words "__I" "" .word32], gaps + 1)
  else if size % 2 = 0 ∧ offset % 2 = 0 then ([words "__I" "" .word16], gaps + 1)
  else ([words "__I" "" .word8], gaps + 1)

/-- The member of a register of its own name or another. -/
def ofRegister (r : Register) (name : String) (count : Option Nat) (note : Note) :
    Except Failure Member := do
  return .word r.access.qualifier (← WordType.ofWidth r.width) name count (some note)

/-- The comment on a union or structure without name. -/
def sizeNote (offset size : Nat) : Note := ⟨offset, s!"(size={Text.hex size 4})"⟩

mutual

/-- The members of a declaration; a gap of no size has none. Gaps are numbered as they come. -/
def ofDecl (bytePadding : Bool) (gaps : Nat) : Decl → Except Failure (List Member × Nat)
  | .register r offset => do
    let member ←
      match r.dim with
      | some d => ofRegister r (CText.identifier r.baseName) (some d.count) ⟨offset, r.description⟩
      | none => ofRegister r (CText.identifier r.name) none ⟨offset, r.description⟩
    return ([member], gaps)
  | .element r i offset => do
    let member ←
      ofRegister r (CText.identifier (elementName r.name r.dim i)) none
        ⟨offset, elementName r.description r.dim i⟩
    return ([member], gaps)
  | .cluster c offset size ds => do
    let (ms, gaps) ← ofDecls bytePadding gaps ds
    let kind := Nesting.cluster (CText.identifier c.baseName) (c.dim.map Dim.count)
    return ([.nested kind ⟨offset, s!"(size=0x{Text.hex size 4}, {size})"⟩ ms], gaps)
  | .union offset size ds => do
    let (ms, gaps) ← ofDecls bytePadding gaps ds
    return ([.nested .union (sizeNote offset size) ms], gaps)
  | .struct offset size ds => do
    let (ms, gaps) ← ofDecls bytePadding gaps ds
    return ([.nested .struct (sizeNote offset size) ms], gaps)
  | .reserved offset size => .ok (ofGap bytePadding gaps offset size)

/-- The members of several declarations. -/
def ofDecls (bytePadding : Bool) (gaps : Nat) : List Decl → Except Failure (List Member × Nat)
  | [] => .ok ([], gaps)
  | d :: ds => do
    let (ms, gaps) ← ofDecl bytePadding gaps d
    let (rest, gaps) ← ofDecls bytePadding gaps ds
    return (ms ++ rest, gaps)

end

/-- The members of a structure with these declarations. -/
def ofLayout (bytePadding : Bool) (ds : List Decl) : Except Failure (List Member) := do
  return (← ofDecls bytePadding 0 ds).1

end Member

end RegisterMap
