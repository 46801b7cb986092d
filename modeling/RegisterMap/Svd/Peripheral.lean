import RegisterMap.Device
import RegisterMap.Svd.Register

/-!
# Peripherals in SVD

The elements of interrupts, address blocks and peripherals, read and written. A derived peripheral
takes over everything but the registers from its source.
-/

namespace RegisterMap

open Svd Xml

/-! ## Interrupts -/

namespace Interrupt

/-- An interrupt between two of the parts of its element. -/
structure Draft where
  name : String := ""
  description : String := ""
  index : Option Int := none

/-- One more part of the element. -/
def Draft.step (d : Draft) : Node → Except Failure Draft
  | .element name _ children =>
    match name.base with
    | "name" => .ok { d with name := Node.textOf children }
    | "description" => .ok { d with description := Node.textOf children }
    | "value" => do
      let n ← Numeral.signed (Node.textOf children)
      return { d with index := some (← Numeral.narrowSigned 32 n) }
    | tag => pass "interrupt" tag d
  | _ => .ok d

/-- The interrupt of an element. Without a number it takes the given one, if any. -/
def ofSvd (missing : Option Int) (children : List Node) : Except Failure Interrupt := do
  let d ← children.foldlM Draft.step {}
  if d.name.isEmpty then fail .unnamedInterrupt
  match d.index.or missing with
  | some index => return { index, name := d.name, description := d.description }
  | none => fail (.unnumberedInterrupt d.name)

/-- The element of an interrupt. -/
def toSvd (i : Interrupt) : Node :=
  .group "interrupt" <|
    [.leaf "name" i.name] ++ unlessEmpty "description" i.description ++
    [.leaf "value" (toString i.index)]

end Interrupt

/-! ## Address blocks -/

namespace AddressBlock

/-- One more part of the element. -/
def stepSvd (b : AddressBlock) : Node → Except Failure AddressBlock
  | .element name _ children =>
    match name.base with
    | "offset" => do return { b with offset := ← number "offset" children }
    | "size" => do return { b with size := ← number "size" children }
    | "width" => do return { b with width := ← number32 "width" children }
    | "usage" => .ok { b with usage := Node.textOf children }
    | tag => pass "addressBlock" tag b
  | _ => .ok b

/-- The address block of an element in a peripheral of the width. -/
def ofSvd (width : Nat) (children : List Node) : Except Failure AddressBlock :=
  children.foldlM stepSvd { offset := 0, size := 0, width }

/-- The element of an address block in a peripheral of the width. -/
def toSvd (width : Nat) (b : AddressBlock) : Node :=
  .group "addressBlock" <|
    [hex "offset" b.offset, hex "size" b.size] ++
    (if b.width = width then [] else [decimal "width" b.width]) ++ [.leaf "usage" b.usage]

end AddressBlock

/-! ## Peripherals -/

namespace Device

/-- What peripherals have unless they say otherwise. -/
def defaults (d : Device) : Defaults := ⟨d.width, d.access, d.resetValue, d.resetMask⟩

end Device

namespace Peripheral

/-- What registers have unless they say otherwise. -/
def defaults (p : Peripheral) : Defaults := ⟨p.width, p.access, p.resetValue, p.resetMask⟩

/-- A peripheral between two of the parts of its element. -/
structure Draft where
  peripheral : Peripheral
  registers : Option (List Node) := none

/-- The name of a peripheral in the device, which may be the one common among vendors. -/
def nameFor (common : Bool) (name : String) : String := if common then commonName name else name

/-- An instruction in the element. -/
def Draft.instruct (d : Draft) (target : String) (value : Option String) : Except Failure Draft :=
  match target with
  | "preferredAccessWidth" => do
    return { d with peripheral.preferredAccessWidth := ← instructionNumber32 value }
  | "forcedBlockMultiple" => do
    return { d with peripheral.forcedBlockMultiple := ← instructionNumber32 value }
  | _ => .ok d

/-- One more part of the element. A derived peripheral has no registers of its own, and its address
blocks are ignored. -/
def Draft.step (common : Bool) (d : Draft) : Node → Except Failure Draft
  | .instruction target value => d.instruct target value
  | .element name _ children =>
    let text := Node.textOf children
    match name.base with
    | "name" => .ok { d with peripheral.name := nameFor common text }
    | "version" => .ok d
    | "description" => .ok { d with peripheral.description := text }
    | "groupName" => .ok { d with peripheral.groupName := some text }
    | "prependToName" => .ok { d with peripheral.prependToName := some text }
    | "appendToName" => .ok { d with peripheral.appendToName := some text }
    | "headerStructName" => .ok { d with peripheral.headerStructName := some text }
    | "baseAddress" => do
      return { d with peripheral.baseAddress := ← number "baseAddress" children }
    | "interrupt" => do
      let i ← Interrupt.ofSvd none children
      return { d with peripheral.interrupts := d.peripheral.interrupts ++ [i] }
    | "size" => do return { d with peripheral.width := ← number32 "size" children }
    | "access" => do return { d with peripheral.access := ← Svd.access children }
    | "resetValue" => do return { d with peripheral.resetValue := ← number "resetValue" children }
    | "resetMask" => do return { d with peripheral.resetMask := ← number "resetMask" children }
    | "addressBlock" =>
      if d.peripheral.isDerived then .ok d
      else do
        let b ← AddressBlock.ofSvd d.peripheral.width children
        return { d with peripheral.addressBlocks := d.peripheral.addressBlocks ++ [b] }
    | "registers" =>
      if d.peripheral.isDerived then fail (.derivedOwnsRegisters d.peripheral.name)
      else .ok { d with registers := some children }
    | tag => pass "peripheral" tag d
  | _ => .ok d

/-- A peripheral with what it takes over from the one that it is derived from. -/
def derive (source : Peripheral) : Peripheral :=
  { name := "", description := source.description, groupName := source.groupName,
    prependToName := source.prependToName, appendToName := source.appendToName,
    headerStructName := source.headerStructName, baseAddress := source.baseAddress,
    width := source.width, access := source.access, resetValue := source.resetValue,
    resetMask := source.resetMask, derivedFrom := some source.name }

/-- What a peripheral starts from: the defaults of the device, or the peripheral of a name, which
may be the common or the written one. -/
def start (common : Bool) (d : Device) (attributes : List Attribute) : Except Failure Peripheral :=
  match Node.attribute? "derivedFrom" attributes with
  | none =>
    .ok { name := "", baseAddress := 0, width := d.width, access := d.access,
          resetValue := d.resetValue, resetMask := d.resetMask }
  | some source =>
    match (d.find? (nameFor common source)).or (d.find? source) with
    | some p => do return (← d.resolve p).derive
    | none => fail (.unresolvedDerivation source)

/-- The peripheral with the hints that attributes of its element give. -/
def hinted (p : Peripheral) (attributes : List Attribute) : Except Failure Peripheral := do
  let hint (name : String) (usual : Nat) : Except Failure Nat :=
    match Node.attribute? name attributes with
    | some value => attributeNumber32 value
    | none => .ok usual
  let preferredAccessWidth ← hint "preferredAccessWidth" p.preferredAccessWidth
  let forcedBlockMultiple ← hint "forcedBlockMultiple" p.forcedBlockMultiple
  return { p with preferredAccessWidth, forcedBlockMultiple }

/-- The peripheral of an element after those of the device. Its registers are read last, when all
its defaults are known. -/
def ofSvd (common : Bool) (device : Device) (attributes : List Attribute) (children : List Node) :
    Except Failure Peripheral := do
  let p ← hinted (← start common device attributes) attributes
  let d ← children.foldlM (Draft.step common) { peripheral := p }
  let p := d.peripheral
  if p.name.isEmpty then fail .unnamedPeripheral
  match d.registers with
  | none => return p
  | some nodes =>
    let es ← within (.peripheral p.name) (Element.listOfSvd "registers" [] p.defaults [] nodes)
    return { p with registers := es }

/-- The instructions for the hints of a peripheral. -/
def hintsToSvd (p : Peripheral) : List Node :=
  ([("preferredAccessWidth", p.preferredAccessWidth),
    ("forcedBlockMultiple", p.forcedBlockMultiple)].filter fun (_, n) => n ≠ 0).map
      fun (target, n) => .instruction target (some s!"\"{n}\" ")

/-- The element of a peripheral that is derived from another. -/
def derivedToSvd (p source : Peripheral) : Node :=
  derivable "peripheral" (some source.name) <|
    [.leaf "name" p.name] ++
    unlessInherited "description" (some p.description) (some source.description) ++
    unlessInherited "groupName" p.groupName source.groupName ++
    unlessInherited "prependToName" p.prependToName source.prependToName ++
    unlessInherited "appendToName" p.appendToName source.appendToName ++
    unlessInherited "headerStructName" p.headerStructName source.headerStructName ++
    [hex "baseAddress" p.baseAddress] ++ p.defaults.toSvd (some source.defaults) ++
    p.interrupts.map Interrupt.toSvd

/-- The element of a peripheral where the defaults are in force. -/
def toSvd (inForce : Defaults) (p : Peripheral) : Node :=
  .group "peripheral" <|
    p.hintsToSvd ++ [.leaf "name" p.name] ++ unlessEmpty "description" p.description ++
    unlessInherited "groupName" p.groupName none ++
    unlessInherited "prependToName" p.prependToName none ++
    unlessInherited "appendToName" p.appendToName none ++
    unlessInherited "headerStructName" p.headerStructName none ++
    [hex "baseAddress" p.baseAddress] ++ p.defaults.toSvd (some inForce) ++
    p.addressBlocks.map (AddressBlock.toSvd p.width) ++ p.interrupts.map Interrupt.toSvd ++
    (if p.registers.isEmpty then []
     else [.group "registers" (Element.listToSvd p.defaults p.registers)])

end Peripheral

end RegisterMap
