import RegisterMap.Peripheral

/-!
# Devices

A device with its processor, its peripherals and its interrupt vectors. Peripherals derive from
each other by name; a derived one has the registers of its source.
-/

namespace RegisterMap

/-- The processor of a device. -/
structure Cpu where
  name : String := "CM4"
  revision : String := "r0p1"
  endian : String := "little"
  mpuPresent : Bool := false
  fpuPresent : Bool := false
  vtorPresent : Bool := true
  nvicPrioBits : Nat := 4
  vendorSystickConfig : Bool := false
  deriving DecidableEq, Repr, Inhabited

namespace Cpu

/-- A core with the small set of exceptions. -/
def isSmall (c : Cpu) : Bool := ["CM0", "CM0PLUS", "CM0+", "CM1"].contains c.name

def isCortexM (c : Cpu) : Bool := "CM".toList.isPrefixOf c.name.toList

/-- The header of the core. -/
def coreHeader (c : Cpu) : String :=
  "core_" ++ Text.lower (Text.replaceAll "+" "PLUS" c.name) ++ ".h"

end Cpu

/-- A device with all that its description tells. -/
structure Device where
  name : String
  version : String := "1.0"
  description : String := ""
  /-- The devices that share the description. -/
  equivalentDevices : List String := []
  addressUnitBits : Nat := 8
  width : Nat := 32
  access : Access := .readWrite
  resetValue : Nat := 0
  resetMask : Nat := 0xFFFFFFFF
  cpu : Option Cpu := none
  peripherals : List Peripheral := []
  vectorTable : Option VectorTable := none
  deriving DecidableEq, Repr, Inhabited

namespace Device

/-- The first peripheral of a name. -/
def find? (d : Device) (name : String) : Option Peripheral :=
  d.peripherals.find? fun p => p.name == name

/-- The peripheral that has the registers of this one. -/
def resolve (d : Device) (p : Peripheral) : Except Failure Peripheral :=
  match p.derivedFrom with
  | none => .ok p
  | some source =>
    match (d.find? source).filter (!·.isDerived) with
    | some s => .ok s
    | none => fail (.unresolvedDerivation source)

theorem resolve_of_not_isDerived (d : Device) {p : Peripheral} (h : p.isDerived = false) :
    d.resolve p = .ok p := by
  have : p.derivedFrom = none := by simpa [Peripheral.isDerived] using h
  simp [resolve, this]

theorem not_isDerived_of_resolve {d : Device} {p s : Peripheral} (h : d.resolve p = .ok s) :
    s.isDerived = false := by
  unfold resolve at h
  split at h
  · rename_i hp
    cases h
    simp [Peripheral.isDerived, hp]
  · split at h
    · rename_i hs
      cases h
      simpa using (Option.filter_eq_some_iff.1 hs).2
    · simp [fail] at h

/-- The device with one more peripheral. Its name must be new, and its source, if it derives from
one, must be there and not derive itself. -/
def addPeripheral (d : Device) (p : Peripheral) : Except Failure Device := do
  if (d.find? p.name).isSome then fail (.peripheralTwice p.name)
  if p.isDerived then
    discard (within (.peripheral p.name) (d.resolve p))
    if !p.registers.isEmpty then fail (.derivedOwnsRegisters p.name)
  return { d with peripherals := d.peripherals ++ [p] }

/-- The peripherals in the order of their names. -/
def sortByName (d : Device) : Device :=
  { d with peripherals := d.peripherals.mergeSort fun a b => a.name ≤ b.name }

/-- The peripherals in the order of their base addresses, then of their names. -/
def sortByAddress (d : Device) : Device :=
  { d with
    peripherals := d.peripherals.mergeSort fun a b =>
      ((compare a.baseAddress b.baseAddress).then (compare a.name b.name)).isLE }

/-- The entries of the vector table that no peripheral owns. -/
def unownedVectors (d : Device) : List Interrupt :=
  (d.vectorTable.map fun t => t.toList.filter (·.peripherals.isEmpty)).getD []

/-- The exceptions of a Cortex-M core, unless the table has some already. -/
def withCoreExceptions (d : Device) (t : VectorTable) : Except Failure VectorTable :=
  if t.hasExceptions then .ok t
  else
    match d.cpu.filter Cpu.isCortexM with
    | some cpu => (t.addCoreExceptions cpu.isSmall).toExcept
    | none => .ok t

/-- The device with its vector table made again from the entries that no peripheral owns, the
interrupts of the peripherals, and the exceptions of the core. -/
def collectVectors (d : Device) : Except Failure Device := do
  let t ← (VectorTable.empty.addAll d.unownedVectors).toExcept
  let t ← (t.collect d.peripherals).toExcept
  let t ← d.withCoreExceptions t
  return { d with vectorTable := some t }

/-- Every peripheral is valid, and every derivation of one can be followed. -/
def validate (d : Device) : Except Failure Unit :=
  d.peripherals.forM fun p => do
    discard (within (.peripheral p.name) (d.resolve p))
    p.validate

/-- The name of a typedef made from that of a peripheral. -/
def typedefName (p : Peripheral) (common : Bool) : String :=
  if common then Peripheral.familyName p.name else p.name

/-- The name of the typedef that describes a peripheral: the one it asks for, the one of its
source, or one made from its name. -/
def structName (d : Device) (p : Peripheral) (common : Bool) : Except Failure String :=
  match p.headerStructName with
  | some n => .ok n
  | none => do
    let source ← d.resolve p
    if source.name = p.name then return typedefName p common
    else return source.headerStructName.getD (typedefName source common)

/-- The group of a peripheral: its own, or that of its source. -/
def groupName (d : Device) (p : Peripheral) : Except Failure String :=
  match p.groupName with
  | some g => .ok g
  | none => do
    let source ← d.resolve p
    if source.name = p.name then return p.ownGroupName else return source.ownGroupName

end Device

end RegisterMap
