import RegisterMap.Description.Registers
import RegisterMap.Device
import RegisterMap.Settings

/-!
# Devices as data

The records of peripherals, devices and settings in structured documents.
-/

namespace RegisterMap

namespace AddressBlock

def names : List String := ["offset", "size", "width", "usage"]

def toDatum (b : AddressBlock) : Datum :=
  .ofFields
    [("offset", .integer b.offset), ("size", .integer b.size), ("width", .integer b.width),
     ("usage", .text b.usage)]

def ofDatum? (dl : Dialect) (d : Datum) : Option AddressBlock := do
  let fs ← dl.fields? names d
  return {
    offset := ← fs.required "offset" (Datum.natural? 64)
    size := ← fs.required "size" (Datum.natural? 64)
    width := ← fs.required "width" (Datum.natural? 32)
    usage := ← fs.required "usage" Datum.text? }

end AddressBlock

namespace Interrupt

def names : List String := ["index", "name", "description", "peripherals"]

def toDatum (i : Interrupt) : Datum :=
  .ofFields <|
    [("index", .integer i.index), ("name", .text i.name), ("description", .text i.description)] ++
    presentList "peripherals" (i.peripherals.map .text)

def ofDatum? (dl : Dialect) (d : Datum) : Option Interrupt := do
  let fs ← dl.fields? names d
  return {
    index := ← fs.required "index" (Datum.signed? 32)
    name := ← fs.required "name" Datum.text?
    description := ← fs.required "description" Datum.text?
    peripherals := ← fs.withDefault "peripherals" [] (Datum.listOf? Datum.text?) }

end Interrupt

namespace VectorTable

def names : List String := ["entries"]

def toDatum (dl : Dialect) (t : VectorTable) : Datum :=
  .ofFields [("entries", .record (t.entries.map fun (k, i) => (dl.key k, i.toDatum)))]

/-- The entries of a record under keys that are numbers; of equal keys the last counts. -/
def readEntries (dl : Dialect) (d : Datum) : Option VectorTable := do
  (← d.entries?).foldlM
    (fun t (k, v) => do return VectorTable.insert t (← dl.key? k) (← Interrupt.ofDatum? dl v))
    empty

def ofDatum? (dl : Dialect) (d : Datum) : Option VectorTable := do
  let fs ← dl.fields? names d
  fs.required "entries" (readEntries dl)

end VectorTable

namespace Peripheral

def names : List String :=
  ["name", "description", "group_name", "prepend_to_name", "append_to_name", "header_struct_name",
   "base_address", "width", "access", "reset_value", "reset_mask", "derived_from",
   "preferred_access_width", "forced_block_multiple", "registers", "address_blocks", "interrupts"]

def toDatum (dl : Dialect) (p : Peripheral) : Datum :=
  .ofFields <|
    [("name", .text p.name), ("description", .text p.description)] ++
    present "group_name" (p.groupName.map .text) ++
    present "prepend_to_name" (p.prependToName.map .text) ++
    present "append_to_name" (p.appendToName.map .text) ++
    present "header_struct_name" (p.headerStructName.map .text) ++
    [("base_address", .integer p.baseAddress), ("width", .integer p.width),
     ("access", p.access.toDatum), ("reset_value", .integer p.resetValue),
     ("reset_mask", .integer p.resetMask)] ++
    present "derived_from" (p.derivedFrom.map .text) ++
    [("preferred_access_width", .integer p.preferredAccessWidth),
     ("forced_block_multiple", .integer p.forcedBlockMultiple),
     ("registers", .list (Element.toData dl p.registers)),
     ("address_blocks", .list (p.addressBlocks.map AddressBlock.toDatum)),
     ("interrupts", .list (p.interrupts.map Interrupt.toDatum))]

def ofDatum? (dl : Dialect) (d : Datum) : Option Peripheral := do
  let fs ← dl.fields? names d
  return {
    name := ← fs.required "name" Datum.text?
    description := ← fs.required "description" Datum.text?
    groupName := ← fs.optional "group_name" Datum.text?
    prependToName := ← fs.optional "prepend_to_name" Datum.text?
    appendToName := ← fs.optional "append_to_name" Datum.text?
    headerStructName := ← fs.optional "header_struct_name" Datum.text?
    baseAddress := ← fs.required "base_address" (Datum.natural? 64)
    width := ← fs.required "width" (Datum.natural? 32)
    access := ← fs.required "access" (Access.ofDatum? dl)
    resetValue := ← fs.required "reset_value" (Datum.natural? 64)
    resetMask := ← fs.required "reset_mask" (Datum.natural? 64)
    derivedFrom := ← fs.optional "derived_from" Datum.text?
    preferredAccessWidth := ← fs.withDefault "preferred_access_width" 0 (Datum.natural? 32)
    forcedBlockMultiple := ← fs.withDefault "forced_block_multiple" 0 (Datum.natural? 32)
    registers := ← fs.withDefault "registers" [] (Datum.listOf? (Element.ofDatum? dl))
    addressBlocks := ← fs.withDefault "address_blocks" [] (Datum.listOf? (AddressBlock.ofDatum? dl))
    interrupts := ← fs.withDefault "interrupts" [] (Datum.listOf? (Interrupt.ofDatum? dl)) }

end Peripheral

namespace Cpu

def names : List String :=
  ["name", "revision", "endian", "mpu_present", "fpu_present", "vtor_present", "nvic_prio_bits",
   "vendor_systick_config"]

def toDatum (c : Cpu) : Datum :=
  .ofFields
    [("name", .text c.name), ("revision", .text c.revision), ("endian", .text c.endian),
     ("mpu_present", .flag c.mpuPresent), ("fpu_present", .flag c.fpuPresent),
     ("vtor_present", .flag c.vtorPresent), ("nvic_prio_bits", .integer c.nvicPrioBits),
     ("vendor_systick_config", .flag c.vendorSystickConfig)]

def ofDatum? (dl : Dialect) (d : Datum) : Option Cpu := do
  let fs ← dl.fields? names d
  let usual : Cpu := {}
  return {
    name := ← fs.withDefault "name" usual.name Datum.text?
    revision := ← fs.withDefault "revision" usual.revision Datum.text?
    endian := ← fs.withDefault "endian" usual.endian Datum.text?
    mpuPresent := ← fs.withDefault "mpu_present" usual.mpuPresent Datum.flag?
    fpuPresent := ← fs.withDefault "fpu_present" usual.fpuPresent Datum.flag?
    vtorPresent := ← fs.withDefault "vtor_present" usual.vtorPresent Datum.flag?
    nvicPrioBits := ← fs.withDefault "nvic_prio_bits" usual.nvicPrioBits (Datum.natural? 32)
    vendorSystickConfig :=
      ← fs.withDefault "vendor_systick_config" usual.vendorSystickConfig Datum.flag? }

end Cpu

namespace Device

def names : List String :=
  ["name", "version", "description", "equivalent_devices", "address_unit_bits", "width", "access",
   "reset_value", "reset_mask", "cpu", "peripherals", "vector_table"]

def toDatum (dl : Dialect) (d : Device) : Datum :=
  .ofFields <|
    [("name", .text d.name), ("version", .text d.version), ("description", .text d.description)] ++
    presentList "equivalent_devices" (d.equivalentDevices.map .text) ++
    [("address_unit_bits", .integer d.addressUnitBits), ("width", .integer d.width),
     ("access", d.access.toDatum), ("reset_value", .integer d.resetValue),
     ("reset_mask", .integer d.resetMask)] ++
    present "cpu" (d.cpu.map Cpu.toDatum) ++
    [("peripherals", .list (d.peripherals.map (Peripheral.toDatum dl)))] ++
    present "vector_table" (d.vectorTable.map (VectorTable.toDatum dl))

def ofDatum? (dl : Dialect) (d : Datum) : Option Device := do
  let fs ← dl.fields? names d
  return {
    name := ← fs.required "name" Datum.text?
    version := ← fs.withDefault "version" "" Datum.text?
    description := ← fs.withDefault "description" "" Datum.text?
    equivalentDevices := ← fs.withDefault "equivalent_devices" [] (Datum.listOf? Datum.text?)
    addressUnitBits := ← fs.required "address_unit_bits" (Datum.natural? 32)
    width := ← fs.required "width" (Datum.natural? 32)
    access := ← fs.required "access" (Access.ofDatum? dl)
    resetValue := ← fs.required "reset_value" (Datum.natural? 64)
    resetMask := ← fs.required "reset_mask" (Datum.natural? 64)
    cpu := ← fs.optional "cpu" (Cpu.ofDatum? dl)
    peripherals := ← fs.required "peripherals" (Datum.listOf? (Peripheral.ofDatum? dl))
    vectorTable := ← fs.optional "vector_table" (VectorTable.ofDatum? dl) }

end Device

/-- The names of all records in the description of a device. -/
def Device.namesWithin : List String :=
  Device.names ++ Cpu.names ++ VectorTable.names ++ Peripheral.names ++ AddressBlock.names ++
    Interrupt.names ++ Register.names ++ Cluster.names ++ Dim.names ++ Flags.names ++
    Field.names ++ Enumeration.names

/-- A key whose value the description of a device may need: a name of a record, or a number. -/
def Device.isKey (k : Datum) : Bool :=
  (k.text?.any namesWithin.contains) || (k.signed? 32).isSome

/-- The format that a value names. -/
def Format.ofDatum? (dl : Dialect) (d : Datum) : Option Format := (dl.name? d).bind ofName?

namespace Settings

def names : List String :=
  ["input", "output_dir", "source_type", "log_level", "description_format",
   "extract_derived_peripherals", "extract_simple_register_arrays", "extract_complex_structures",
   "regenerate_address_blocks", "extract_common_prefix", "fold_registers",
   "extract_similar_fields", "ignore_reset_values_in_equivalence",
   "ignore_access_type_in_equivalence", "freescale_field_names", "numeric_field_masks",
   "generate_register_macros", "map_common_names", "use_byte_padding", "header_exclusions"]

def toDatum (s : Settings) : Datum :=
  let text? (t : Option String) : Datum := (t.map .text).getD .null
  .ofFields
    [("input", text? s.input), ("output_dir", text? s.outputDir),
     ("source_type", .text s.sourceFormat.name), ("log_level", text? s.logLevel),
     ("description_format", text? (s.descriptionFormat.map Format.name)),
     ("extract_derived_peripherals", .flag s.derivePeripherals),
     ("extract_simple_register_arrays", .flag s.foldArrays),
     ("extract_complex_structures", .flag s.groupClusters),
     ("regenerate_address_blocks", .flag s.rebuildAddressBlocks),
     ("extract_common_prefix", .flag s.extractPrefix),
     ("fold_registers", .flag s.foldRegisters),
     ("extract_similar_fields", .flag s.shareEnumerations),
     ("ignore_reset_values_in_equivalence", .flag s.ignoreReset),
     ("ignore_access_type_in_equivalence", .flag s.ignoreAccess),
     ("freescale_field_names", .flag s.shiftMaskNames),
     ("numeric_field_masks", .flag s.numericMasks),
     ("generate_register_macros", .flag s.registerMacros),
     ("map_common_names", .flag s.commonNames),
     ("use_byte_padding", .flag s.bytePadding),
     ("header_exclusions", (s.exclusions.map fun ps => .list (ps.map .text)).getD .null)]

def ofDatum? (dl : Dialect) (d : Datum) : Option Settings := do
  let fs ← dl.fields? names d
  let usual : Settings := {}
  let flag (name : String) (default : Bool) : Option Bool :=
    fs.withDefault name default Datum.flag?
  return {
    input := ← fs.optional "input" Datum.text?
    outputDir := ← fs.optional "output_dir" Datum.text?
    sourceFormat := ← fs.withDefault "source_type" usual.sourceFormat (Format.ofDatum? dl)
    logLevel := ← fs.optional "log_level" Datum.text?
    descriptionFormat := ← fs.optional "description_format" (Format.ofDatum? dl)
    derivePeripherals := ← flag "extract_derived_peripherals" usual.derivePeripherals
    foldArrays := ← flag "extract_simple_register_arrays" usual.foldArrays
    groupClusters := ← flag "extract_complex_structures" usual.groupClusters
    rebuildAddressBlocks := ← flag "regenerate_address_blocks" usual.rebuildAddressBlocks
    extractPrefix := ← flag "extract_common_prefix" usual.extractPrefix
    foldRegisters := ← flag "fold_registers" usual.foldRegisters
    shareEnumerations := ← flag "extract_similar_fields" usual.shareEnumerations
    ignoreReset := ← flag "ignore_reset_values_in_equivalence" usual.ignoreReset
    ignoreAccess := ← flag "ignore_access_type_in_equivalence" usual.ignoreAccess
    shiftMaskNames := ← flag "freescale_field_names" usual.shiftMaskNames
    numericMasks := ← flag "numeric_field_masks" usual.numericMasks
    registerMacros := ← flag "generate_register_macros" usual.registerMacros
    commonNames := ← flag "map_common_names" usual.commonNames
    bytePadding := ← flag "use_byte_padding" usual.bytePadding
    exclusions := ← fs.optional "header_exclusions" (Datum.listOf? Datum.text?) }

end Settings

end RegisterMap
