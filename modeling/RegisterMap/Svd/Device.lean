import RegisterMap.Svd.Peripheral
import RegisterMap.Xml.Document

/-!
# Devices in SVD

The root element of a description, read and written, with its processor and the extensions for
what SVD itself has no place for: vectors without a peripheral and equivalent devices. Main
definitions: `Device.ofSvd` and `Device.toSvd` between trees, `Device.readSvd` and
`Device.svdText` between texts.
-/

namespace RegisterMap

open Svd Xml

/-! ## Processors -/

namespace Cpu

/-- One more part of the element. -/
def stepSvd (c : Cpu) : Node → Except Failure Cpu
  | .element name _ children =>
    let text := Node.textOf children
    match name.base with
    | "name" => .ok { c with name := text }
    | "revision" => .ok { c with revision := text }
    | "endian" => .ok { c with endian := text }
    | "mpuPresent" => do return { c with mpuPresent := ← boolean children }
    | "fpuPresent" => do return { c with fpuPresent := ← boolean children }
    | "vtorPresent" => do return { c with vtorPresent := ← boolean children }
    | "nvicPrioBits" => do return { c with nvicPrioBits := ← number32 "nvicPrioBits" children }
    | "vendorSystickConfig" => do return { c with vendorSystickConfig := ← boolean children }
    | tag => pass "cpu" tag c
  | _ => .ok c

/-- The processor of an element. -/
def ofSvd (children : List Node) : Except Failure Cpu := children.foldlM stepSvd {}

/-- The element of a processor. -/
def toSvd (c : Cpu) : Node :=
  .group "cpu"
    [.leaf "name" c.name, .leaf "revision" c.revision, .leaf "endian" c.endian,
     truth "mpuPresent" c.mpuPresent, truth "fpuPresent" c.fpuPresent,
     truth "vtorPresent" c.vtorPresent, decimal "nvicPrioBits" c.nvicPrioBits,
     truth "vendorSystickConfig" c.vendorSystickConfig]

end Cpu

namespace Device

/-! ## Extensions -/

/-- Interrupts that are numbered up to here take the number after the one before them. -/
def automaticNumber : Int := -100

/-- The number before that of the first interrupt. -/
def numberBeforeFirst : Int := -1000

/-- The devices of a list between commas. -/
def deviceList (s : String) : List String :=
  ((Text.parts ',' s.toList).map fun p => Text.trim (.ofList p)).filter (!·.isEmpty)

/-- Adds an interrupt that no peripheral owns, making a vector table for the first. -/
def addVector (d : Device) (i : Interrupt) : Except Failure Device := do
  return { d with vectorTable := some (← (d.vectorTable.getD .empty).add i) }

/-- The interrupt of an element with the number that it gets after another. -/
def numbered (last : Int) (children : List Node) : Except Failure Interrupt := do
  let i ← Interrupt.ofSvd (some automaticNumber) children
  if i.index ≤ automaticNumber then return { i with index := last + 1 }
  else if i.index ≤ last then fail (.interruptOrder i.name)
  else return i

/-- Adds an interrupt to the device, unless it is an exception of the core. -/
def extend (d : Device) (i : Interrupt) : Outcome Device :=
  if i.index < 0 then { state := d, warnings := [.discardedVector i.name] }
  else .ofExcept d (d.addVector i)

/-- Adds the interrupts of elements, each numbered after the one before it. -/
def addNumbered (last : Int) (d : Device) : List (List Node) → Outcome Device
  | [] => .pure d
  | children :: rest =>
    match numbered last children with
    | .error f => { state := d, failure := some f }
    | .ok i => (d.extend i).andThen fun d => d.addNumbered i.index rest

/-- One more extension. -/
def stepExtension (d : Device) : Node → Outcome Device
  | .element name _ children =>
    match name.base with
    | "equivalentDevices" => .pure { d with equivalentDevices := deviceList (Node.textOf children) }
    | "interrupts" => d.addNumbered numberBeforeFirst (childrenOf "interrupt" children)
    | tag => { state := d, warnings := [.unexpectedExtension tag] }
  | _ => .pure d

/-! ## Reading -/

/-- One more node in the list of peripherals. -/
def stepPeripheral (common : Bool) (d : Device) : Node → Except Failure Device
  | .element name attributes children =>
    if name.base == "peripheral" then do
      d.addPeripheral (← Peripheral.ofSvd common d attributes children)
    else pass "peripherals" name.base d
  | _ => .ok d

/-- One more part of the root that tells about the device without any warning. -/
def stepPart (common : Bool) (d : Device) (tag : String) (children : List Node) :
    Except Failure Device :=
  match tag with
  | "name" => .ok { d with name := Node.textOf children }
  | "version" => .ok { d with version := Node.textOf children }
  | "description" => .ok { d with description := Node.textOf children }
  | "addressUnitBits" => do
    return { d with addressUnitBits := ← number32 "addressUnitBits" children }
  | "width" => do return { d with width := ← number32 "width" children }
  | "size" => do return { d with width := ← number32 "size" children }
  | "access" => do return { d with access := ← Svd.access children }
  | "resetValue" => do return { d with resetValue := ← number "resetValue" children }
  | "resetMask" => do return { d with resetMask := ← number "resetMask" children }
  | "cpu" => do return { d with cpu := some (← Cpu.ofSvd children) }
  | "peripherals" => children.foldlM (stepPeripheral common) d
  | tag => pass "device" tag d

/-- Each of the nodes in order, up to the first that is refused. -/
def stepAll (step : Device → Node → Outcome Device) (d : Device) (nodes : List Node) :
    Outcome Device :=
  nodes.foldl (fun o n => o.andThen fun d => step d n) (.pure d)

/-- One more part of the root. -/
def stepSvd (common : Bool) (d : Device) : Node → Outcome Device
  | .element name _ children =>
    if name.base == "vendorExtensions" then d.stepAll stepExtension children
    else .ofExcept d (d.stepPart common name.base children)
  | _ => .pure d

/-- The device is named and valid. -/
def checkRead (d : Device) : Except Failure Unit := do
  if d.name.isEmpty then fail .unnamedDevice
  within (.device d.name) d.validate

/-- The device of a document. Peripherals have the names that are common among vendors, if asked
for. -/
def ofSvd (common : Bool) (root : Node) : Outcome Device :=
  let blank : Device := { name := "" }
  match root with
  | .element name _ children =>
    if name.base == "device" then
      (blank.stepAll (stepSvd common) children).andThen fun d => .check d d.checkRead
    else { state := blank, failure := some (Cause.wrongRoot name.base) }
  | _ => { state := blank, failure := some (Cause.wrongRoot "") }

/-- The device of a text. -/
def readSvd (common : Bool) (text : String) : Outcome Device :=
  match Node.ofText? text with
  | some root => ofSvd common root
  | none => { state := { name := "" }, failure := some (Cause.malformed .xml) }

/-! ## Writing -/

/-- The vectors of interrupts that no peripheral owns. -/
def orphans (d : Device) : List Interrupt := d.unownedVectors.filter fun i => 0 ≤ i.index

/-- The extensions of a device, if it has any. -/
def extensionsToSvd (d : Device) : List Node :=
  let equivalents :=
    if d.equivalentDevices.isEmpty then []
    else [Node.leaf "equivalentDevices" (", ".intercalate d.equivalentDevices)]
  let interrupts :=
    if d.orphans.isEmpty then [] else [Node.group "interrupts" (d.orphans.map Interrupt.toSvd)]
  if (equivalents ++ interrupts).isEmpty then []
  else [.group "vendorExtensions" (equivalents ++ interrupts)]

/-- The element of a peripheral of the device. -/
def peripheralToSvd (d : Device) (p : Peripheral) : Node :=
  match p.derivedFrom.bind d.find? with
  | some source => p.derivedToSvd source
  | none => p.toSvd d.defaults

/-- The attributes that name the schema of the document. -/
def schema : List Attribute :=
  [⟨⟨"", "schemaVersion"⟩, "1.1"⟩,
   ⟨⟨"xmlns", "xs"⟩, "http://www.w3.org/2001/XMLSchema-instance"⟩,
   ⟨⟨"xs", "noNamespaceSchemaLocation"⟩, "CMSIS-SVD_Schema_1_1.xsd"⟩]

/-- The root of the document for a device. -/
def toSvd (d : Device) : Node :=
  .element ⟨"", "device"⟩ schema <|
    [.leaf "name" d.name, .leaf "version" d.version] ++ unlessEmpty "description" d.description ++
    (d.cpu.map Cpu.toSvd).toList ++
    [decimal "addressUnitBits" d.addressUnitBits, decimal "width" d.width] ++
    d.defaults.toSvd none ++ [.group "peripherals" (d.peripherals.map d.peripheralToSvd)] ++
    d.extensionsToSvd

/-- The document for a device. -/
def svdText (d : Device) : String := Node.document d.toSvd

end Device

end RegisterMap
