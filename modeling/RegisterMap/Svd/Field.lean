import RegisterMap.Field
import RegisterMap.Svd.Content

/-!
# Fields in SVD

The elements of fields and of their enumerations, read and written.
-/

namespace RegisterMap

open Svd Xml

/-! ## Enumerations -/

namespace Enumeration

/-- An enumeration between two of the parts of its element. -/
structure Draft where
  enumeration : Enumeration := {}
  value : Option String := none
  isDefault : Bool := false

/-- One more part of the element. -/
def Draft.step (d : Draft) : Node → Except Failure Draft
  | .element name _ children =>
    match name.base with
    | "name" => .ok { d with enumeration.name := Node.textOf children }
    | "description" => .ok { d with enumeration.description := Node.textOf children }
    | "value" => .ok { d with value := some (Node.textOf children) }
    | "isDefault" => do return { d with isDefault := ← boolean children }
    | tag => pass "enumeratedValue" tag d
  | _ => .ok d

/-- The enumeration of an element, in a field of so many bits. -/
def ofSvd (width : Nat) (children : List Node) : Except Failure Enumeration := do
  let d ← children.foldlM Draft.step {}
  match d.value with
  | some v => if d.isDefault then return d.enumeration.asDefault else d.enumeration.withText v width
  | none => return d.enumeration.asDefault

/-- The element of an enumeration. -/
def toSvd (e : Enumeration) : Node :=
  .group "enumeratedValue" <|
    Node.leaf "name" e.name :: unlessEmpty "description" e.description ++
    [if e.isDefault then .leaf "isDefault" "true"
     else
       match e.text with
       | some t => .leaf "value" t
       | none => hex "value" e.value]

end Enumeration

/-! ## Fields -/

namespace Field

/-- The position and width of a range of bits, by the numbers of its lowest and highest bit. -/
def bits (name : String) (low high : Option Nat) : Except Failure (Option (Nat × Nat)) :=
  match low, high with
  | none, none => .ok none
  | some low, some high =>
    if low ≤ high then .ok (some (low, min (high - low + 1) (Bits.limit 32 - 1)))
    else fail (.illegalFieldRange name)
  | _, _ => fail (.illegalFieldRange name)

/-- The number of 32 bits that a part of a range spells. -/
def bitNumber (s : List Char) : Except Failure Nat :=
  match Numeral.unsigned 10 (Bits.limit 32) (Text.trim (.ofList s)).toList with
  | .ok n => .ok n
  | .error fault => fail (.numeral fault)

/-- The parts of a text in square brackets before and after its first colon. -/
def bracketed? (s : List Char) : Option (List Char × List Char) :=
  match s with
  | '[' :: rest =>
    if rest.getLast? == some ']' then Text.cut? ':' rest.dropLast else none
  | _ => none

/-- The lowest and the highest bit that a range in square brackets names. -/
def bitRange (s : String) : Except Failure (Nat × Nat) :=
  match bracketed? s.toList with
  | some (high, low) => do
    let low ← bitNumber low
    return (low, ← bitNumber high)
  | none => fail (.illegalBitRange s)

/-- A field between two of the parts of its element. -/
structure Draft where
  field : Field
  low : Option Nat := none
  high : Option Nat := none
  enumerations : Option (List Node) := none

/-- One more part of the element. -/
def Draft.step (d : Draft) : Node → Except Failure Draft
  | .instruction target _ =>
    .ok (if target == "ignoreOverlap" then { d with field.ignoreOverlap := true } else d)
  | .element name _ children =>
    match name.base with
    | "name" => .ok { d with field.name := Node.textOf children }
    | "description" => .ok { d with field.description := Node.textOf children }
    | "bitOffset" => do return { d with field.bitOffset := ← number32 "bitOffset" children }
    | "bitWidth" => do return { d with field.bitWidth := ← number32 "bitWidth" children }
    | "lsb" => do return { d with low := some (← number32 "lsb" children) }
    | "msb" => do return { d with high := some (← number32 "msb" children) }
    | "bitRange" => do
      let (low, high) ← bitRange (Node.textOf children)
      return { d with low := some low, high := some high }
    | "access" => do return { d with field.access := some (← Svd.access children) }
    | "enumeratedValues" => .ok { d with enumerations := some children }
    | tag => pass "field" tag d
  | _ => .ok d

/-- A field with what it takes over from the one that it is derived from. -/
def derive (source : Field) : Field :=
  { source with
    derivedFrom := some (source.derivedFrom.getD source.name), enumerations := [],
    ignoreOverlap := false }

/-- What a field starts from: nothing, or a field in front of it. -/
def start (siblings : List Field) (attributes : List Attribute) : Except Failure Field :=
  match Node.attribute? "derivedFrom" attributes with
  | none => .ok {}
  | some source =>
    match siblings.find? fun f => f.name == source with
    | some f => .ok f.derive
    | none => fail (.unresolvedDerivation source)

/-- The field with the enumerations of an element. -/
def addSvd (f : Field) (nodes : List Node) : Except Failure Field :=
  if f.derivedFrom.isSome then fail (.enumeratedDerivedField f.name)
  else
    (childrenOf "enumeratedValue" nodes).foldlM
      (fun f children => do
        f.addEnumeration (← within (.field f.name) (Enumeration.ofSvd f.bitWidth children)))
      f

/-- The field of an element after its siblings. -/
def ofSvd (siblings : List Field) (attributes : List Attribute) (children : List Node) :
    Except Failure Field := do
  let d ← children.foldlM Draft.step { field := ← start siblings attributes }
  let f ←
    match ← bits d.field.name d.low d.high with
    | some (offset, width) => pure { d.field with bitOffset := offset, bitWidth := width }
    | none => pure d.field
  match d.enumerations with
  | some nodes => f.addSvd nodes
  | none => return f

/-- The element of a field in a register with the access. -/
def toSvd (register : Access) (f : Field) : Node :=
  derivable "field" f.derivedFrom <|
    (if f.ignoreOverlap then [.instruction "ignoreOverlap" none] else []) ++
    [.leaf "name" f.name] ++ unlessEmpty "description" f.description ++
    [decimal "bitOffset" f.bitOffset, decimal "bitWidth" f.bitWidth] ++
    ((f.access.filter (· != register)).map fun a => Node.leaf "access" a.name).toList ++
    (if f.derivedFrom.isNone && !f.enumerations.isEmpty then
      [.group "enumeratedValues" (f.enumerations.map Enumeration.toSvd)]
    else [])

end Field

end RegisterMap
