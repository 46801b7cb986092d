import RegisterMap.Failure
import RegisterMap.Numeral
import RegisterMap.Xml.Node

/-!
# Contents of SVD elements

The values that the elements of an SVD document hold, and the elements that hold values. SVD is
the XML form of device descriptions.
-/

namespace RegisterMap.Svd

open Xml

/-- Elements that are allowed everywhere and tell nothing about the header. -/
def ignoredTags : List String :=
  ["alternateGroup", "alternatePeripheral", "alternateRegister", "dataType", "disableCondition",
   "headerDefinitionsPrefix", "headerEnumName", "headerSystemFilename", "licenseText",
   "modifiedWriteValues", "protection", "readAction", "series", "usage", "vendor", "vendorID",
   "writeConstraint"]

/-- An element that has no meaning in its parent is ignored, if it may be. -/
def pass (parent tag : String) (s : σ) : Except Failure σ :=
  if ignoredTags.contains tag then .ok s else fail (.unexpectedElement tag parent)

/-! ## Reading -/

/-- The number in an element. -/
def number (tag : String) (children : List Node) : Except Failure Nat :=
  within (.element tag) (Numeral.number (Node.textOf children))

/-- The number of 32 bits in an element. -/
def number32 (tag : String) (children : List Node) : Except Failure Nat := do
  Numeral.narrow 32 (← number tag children)

/-- The number of 32 bits in an attribute. -/
def attributeNumber32 (value : String) : Except Failure Nat := do
  Numeral.narrow 32 (← Numeral.number value)

/-- The text without the double quotes around it. -/
def unquoted (s : String) : String :=
  let quoted (c : Char) : Bool := c == '"'
  .ofList ((s.toList.dropWhile quoted).reverse.dropWhile quoted).reverse

/-- The number of 32 bits that an instruction gives, 0 without a value. -/
def instructionNumber32 (value : Option String) : Except Failure Nat :=
  match value with
  | some v => attributeNumber32 (unquoted (Text.trim v))
  | none => .ok 0

/-- The access type in an element. -/
def access (children : List Node) : Except Failure Access :=
  match Access.ofText? (Node.textOf children) with
  | some a => .ok a
  | none => fail (.illegalAccess (Node.textOf children))

/-- The truth value in an element. -/
def boolean (children : List Node) : Except Failure Bool := Numeral.boolean (Node.textOf children)

/-- The elements among nodes that have the tag, by their children. -/
def childrenOf (tag : String) (nodes : List Node) : List (List Node) :=
  nodes.filterMap fun n =>
    match n with
    | .element name _ children => if name.base == tag then some children else none
    | _ => none

/-! ## Writing -/

/-- An element with a number in hexadecimal digits. -/
def hex (tag : String) (n : Nat) : Node := .leaf tag s!"0x{Text.hex n}"

/-- An element with a number in decimal digits. -/
def decimal (tag : String) (n : Nat) : Node := .leaf tag (toString n)

/-- An element with a truth value. -/
def truth (tag : String) (b : Bool) : Node := .leaf tag (if b then "true" else "false")

/-- An element with a text, if there is one. -/
def unlessEmpty (tag value : String) : List Node := if value.isEmpty then [] else [.leaf tag value]

/-- An element with a text, if it differs from what is in force already. -/
def unlessInherited (tag : String) (value inherited : Option String) : List Node :=
  if value = inherited then [] else (value.map (Node.leaf tag)).toList

/-- An element that may be derived from another of its kind. -/
def derivable (tag : String) (source : Option String) (children : List Node) : Node :=
  .element ⟨"", tag⟩ (source.map fun s => ⟨⟨"", "derivedFrom"⟩, s⟩).toList children

/-! ## Defaults -/

/-- What registers have unless they say otherwise. -/
structure Defaults where
  width : Nat
  access : Access
  resetValue : Nat
  resetMask : Nat
  deriving DecidableEq, Repr

/-- The elements for the values that differ from those in force, or for all of them. -/
def Defaults.toSvd (d : Defaults) (inForce : Option Defaults) : List Node :=
  let unlessSame (same : Defaults → Bool) (n : Node) : List Node :=
    if inForce.any same then [] else [n]
  unlessSame (·.width == d.width) (decimal "size" d.width) ++
    unlessSame (·.access == d.access) (.leaf "access" d.access.name) ++
    unlessSame (·.resetValue == d.resetValue) (hex "resetValue" d.resetValue) ++
    unlessSame (·.resetMask == d.resetMask) (hex "resetMask" d.resetMask)

end RegisterMap.Svd
