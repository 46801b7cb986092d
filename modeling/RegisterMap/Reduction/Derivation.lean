import RegisterMap.Device

/-!
# Derivation

Structure that is there twice is replaced by a reference to its first occurrence: peripherals with
the registers of an earlier one, registers with the fields of an earlier one, and fields with the
enumerations of an earlier one.
-/

namespace RegisterMap

namespace Peripheral

/-- The register has fields of its own to share. -/
def hasOwnFields (r : Register) : Bool := r.derivedFrom.isNone && !r.fields.isEmpty

/-- The fields of an earlier register describe the other one as well. Reset values and array
dimensions do not count, but both are arrays or neither is. -/
def describes (cmp : Comparison) (source r : Register) : Bool :=
  source.derivedFrom.isNone && source.dim.isNone == r.dim.isNone && source.flags == r.flags &&
    { source with dim := none }.equivalentLayout { r with dim := none }
      { cmp with ignoreReset := true }

/-- The first of earlier elements that describes a register. -/
def describing? (cmp : Comparison) (earlier : List Element) (r : Register) : Option Register :=
  earlier.findSome? fun
    | .register s => if describes cmp s r then some s else none
    | .cluster _ _ => none

/-- The element with its fields replaced by a reference to an earlier register, if one has them. -/
def foldElement (cmp : Comparison) (earlier : List Element) : Element → Element
  | .register r =>
    if hasOwnFields r then
      match describing? cmp earlier r with
      | some s => .register { r with derivedFrom := some s.name, fields := [] }
      | none => .register r
    else .register r
  | .cluster c es => .cluster c es

/-- Derives each register of a list from an earlier one where possible. -/
def foldElements (cmp : Comparison) : (earlier : List Element) → List Element → List Element
  | _, [] => []
  | earlier, e :: es =>
    let e := foldElement cmp earlier e
    e :: foldElements cmp (earlier ++ [e]) es

/-- The peripheral with registers derived from earlier ones that are described alike. -/
def foldRegisters (p : Peripheral) (cmp : Comparison) : Peripheral :=
  { p with registers := foldElements cmp [] p.registers }

/-- The peripheral with the enumerations shared among the fields of each register. -/
def shareEnumerations (p : Peripheral) : Peripheral :=
  { p with registers := Element.mapRegistersAll Register.extractSimilarFields p.registers }

/-- The first of earlier peripherals that has the registers of this one. -/
def twin? (cmp : Comparison) (earlier : List Peripheral) (p : Peripheral) : Option Peripheral :=
  earlier.find? fun s => !s.isDerived && !s.registers.isEmpty && p.equivalent s cmp

/-- The peripheral as one derived from an earlier one, if there is one with its registers. -/
def deriveFromEarlier (cmp : Comparison) (earlier : List Peripheral) (p : Peripheral) :
    Peripheral :=
  if p.isDerived then p
  else
    match twin? cmp earlier p with
    | some s => p.deriveFrom s.name
    | none => p

/-- Derives each peripheral of a list from an earlier one where possible. -/
def deriveAll (cmp : Comparison) : (earlier : List Peripheral) → List Peripheral → List Peripheral
  | _, [] => []
  | earlier, p :: ps =>
    let p := deriveFromEarlier cmp earlier p
    p :: deriveAll cmp (earlier ++ [p]) ps

theorem length_deriveAll (cmp : Comparison) (earlier ps : List Peripheral) :
    (deriveAll cmp earlier ps).length = ps.length := by
  induction ps generalizing earlier with
  | nil => rfl
  | cons p ps ih => simp [deriveAll, ih]

end Peripheral

/-- The device with every peripheral that repeats an earlier one derived from it. -/
def Device.derivePeripherals (d : Device) (cmp : Comparison) : Device :=
  { d with peripherals := Peripheral.deriveAll cmp [] d.peripherals }

end RegisterMap
