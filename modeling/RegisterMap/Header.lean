import RegisterMap.Header.AccessMacros
import RegisterMap.Header.FieldMacros
import RegisterMap.Header.Vectors

/-!
# Headers

The C header of a device: its interrupt numbers, its core, a typedef and macros for each of its
peripherals in the order of their names, and pointers to them. Peripherals with the same registers
share a typedef.
-/

namespace RegisterMap.Header

/-- The lines at the top of a header. -/
def preamble (d : Device) : List String :=
  let guard := CText.includeGuard d.name
  ["/****************************************************************************************************//**",
   s!" * @file     {d.name}.h",
   " *",
   s!" * @brief    CMSIS Cortex-M Peripheral Access Layer Header File for {d.name}.",
   " *           Equivalent: " ++ ", ".intercalate d.equivalentDevices,
   " *",
   s!" * @version  V{d.version}",
   " *",
   " *******************************************************************************************************/",
   "",
   s!"#ifndef {guard}",
   s!"#define {guard}",
   "",
   "#include <stdint.h>",
   "#ifdef __cplusplus",
   "extern \"C\" \x7b",
   "#endif",
   ""]

/-- The lines at the bottom of a header. -/
def closing (d : Device) : List String :=
  ["", "#ifdef __cplusplus", "\x7d", "#endif", "",
   "", s!"#endif  /* {CText.includeGuard d.name} */", ""]

/-- The macro that tells the revision of a core. -/
def revisionMacro (c : Cpu) : String :=
  if "CM4".toList.isPrefixOf c.name.toList then "__CM4_REV"
  else if "CM0".toList.isPrefixOf c.name.toList then "__CM0PLUS_REV"
  else "__CM3_REV"

/-- The number of a revision of the form `r1p2`, zero for any other. -/
def revisionNumber (revision : String) : String :=
  match revision.toList with
  | ['r', r, 'p', p] => if r.isDigit && p.isDigit then s!"0x0{r}0{p}" else "0x0000"
  | _ => "0x0000"

def flag (b : Bool) : String := if b then "1" else "0"

/-- The macros of a core: name, value and comment. -/
def coreMacros (c : Cpu) : List (String × String × String) :=
  [(revisionMacro c, revisionNumber c.revision, "CPU Revision"),
   ("__MPU_PRESENT", flag c.mpuPresent, "Whether MPU is present"),
   ("__NVIC_PRIO_BITS", toString c.nvicPrioBits,
    "Number of implemented bits in NVIC PRIO register"),
   ("__Vendor_SysTickConfig", flag c.vendorSystickConfig,
    "Whether Vendor implemented SYSTICK timer is present"),
   ("__FPU_PRESENT", flag c.fpuPresent, "Whether FPU is present"),
   ("__VTOR_PRESENT", flag c.vtorPresent, "Whether VTOR register is present")]

/-- The lines about a core. -/
def core (c : Cpu) : List String :=
  ["/**", s!" * @brief Configuration of the {Text.lower c.name} Processor and Core Peripherals",
   " */"] ++
  Frame.openGroup "Cortex_Core_Configuration" "Cortex Core Configuration" "Core configuration" ++
  (coreMacros c).map (fun (name, value, comment) =>
    s!"#define {Text.padEnd 25 name} {Text.padEnd 10 value} /**< {Text.padEnd 51 comment} */") ++
  [""] ++ Frame.closeGroup "Cortex_Core_Configuration" ++
  [s!"#include <{c.coreHeader}>   /*!< Cortex-M processor and core peripherals                              */",
   ""]

/-- What the qualifiers of members stand for. -/
def qualifiers : List String :=
  ["#ifndef __IO", "#define __IO volatile", "#endif", "",
   "#ifndef __I", "#define __I volatile const", "#endif", "",
   "#ifndef __O", "#define __O volatile", "#endif", "", ""]

/-- The lines before the first typedef. -/
def unionsStart : List String :=
  ["",
   "/* -------------------  Start of section using anonymous unions  ------------------ */",
   "#if defined(__CC_ARM)",
   "  #pragma push",
   "  #pragma anon_unions",
   "#elif defined(__ICCARM__)",
   "  #pragma language=extended",
   "#elif defined(__GNUC__)",
   "  /* anonymous unions are enabled by default */",
   "#elif defined(__TMS470__)",
   "/* anonymous unions are enabled by default */",
   "#elif defined(__TASKING__)",
   "  #pragma warning 586",
   "#else",
   "  #warning Not supported compiler type",
   "#endif"]

/-- The lines after the last typedef. -/
def unionsEnd : List String :=
  ["/* --------------------  End of section using anonymous unions  ------------------- */",
   "#if defined(__CC_ARM)",
   "  #pragma pop",
   "#elif defined(__ICCARM__)",
   "  /* leave anonymous unions enabled */",
   "#elif defined(__GNUC__)",
   "  /* anonymous unions are enabled by default */",
   "#elif defined(__TMS470__)",
   "  /* anonymous unions are enabled by default */",
   "#elif defined(__TASKING__)",
   "  #pragma warning restore",
   "#else",
   "  #warning Not supported compiler type",
   "#endif"]

/-! ## Peripherals -/

/-- What a header has so far. -/
structure Written where
  /-- The typedefs, with the peripherals whose registers they describe. -/
  typedefs : List (String × String) := []
  /-- The peripherals whose fields have macros. -/
  described : List String := []
  macros : DefinedMacros := []
  deriving DecidableEq, Repr

/-- The title and the description of a peripheral. -/
def heading (p : Peripheral) : List String :=
  let title :=
    match p.derivedFrom with
    | some source => s!"{p.name} (derived from {source})"
    | none => p.name
  ["", Frame.rule,
   s!"/* ================           {Text.padEnd 30 title}       ================ */",
   Frame.rule, "", "/**", s!" * @brief {CText.comment p.description}", " */"]

/-- The typedef of a peripheral's registers, unless it is there already. -/
def typedef (s : Settings) (d : Device) (p source : Peripheral) (name : String) (w : Written) :
    Except Failure (List Part × Written) :=
  match w.typedefs.lookup name with
  | some owner =>
    if owner = source.name then .ok ([], w) else fail (.typedefClash p.name name)
  | none => do
    let group ← d.groupName source
    let members ← Member.ofLayout s.bytePadding (← layout source.registers)
    let first := Frame.openGroup s!"{group}_structs" s!"{group} struct" s!"Struct for {group}"
    return ([.plain first, .typedef name members, .plain (Frame.closeGroup s!"{group}_structs")],
      { w with typedefs := (name, source.name) :: w.typedefs })

/-- The field macros of a peripheral's registers, unless they are there already. -/
def fieldMacros (s : Settings) (source : Peripheral) (w : Written) :
    Except Failure (List Part × Written) :=
  if w.described.contains source.name then .ok ([], w)
  else do
    let (parts, macros) ← FieldMacro.ofPeripheral s source w.macros
    return (parts, { w with described := source.name :: w.described, macros })

/-- Everything about one peripheral. -/
def peripheral (s : Settings) (d : Device) (p : Peripheral) (w : Written) :
    Except Failure (List Part × Written) := do
  let source ← d.resolve p
  let name ← d.structName p s.commonNames
  let (struct, w) ← typedef s d p source name w
  let (fields, w) ← fieldMacros s source w
  let registers := if s.registerMacros then AccessMacro.ofPeripheral s p source else []
  return (.plain (heading p) :: struct ++ fields ++ registers, w)

/-- Everything about peripherals one after another. -/
def peripherals (s : Settings) (d : Device) : List Peripheral → Written →
    Except Failure (List Part × Written)
  | [], w => .ok ([], w)
  | p :: ps, w => do
    let (parts, w) ← within (.writing p.name) (peripheral s d p w)
    let (rest, w) ← peripherals s d ps w
    return (parts ++ rest, w)

/-- The peripherals that a header has, in the order of their names. -/
def included (s : Settings) (d : Device) : List Peripheral :=
  (d.peripherals.filter fun p => !s.excludes p.name).mergeSort fun a b => a.name ≤ b.name

/-- The macro that lists the interrupts of a peripheral. -/
def interruptList (p : Peripheral) : List String :=
  if p.interrupts.isEmpty then []
  else
    let numbers := ", ".intercalate (p.interrupts.map Interrupt.numberName)
    [s!"#define {p.name}_IRQS \x7b {numbers} \x7d"]

/-- The parts of the header of a device. -/
def parts (s : Settings) (d : Device) : Except Failure (List Part) := do
  let vectors := d.vectorTable.getD .empty
  let ps := included s d
  let (described, _) ← peripherals s d ps {}
  let pointers ← ps.mapM fun p => do return .pointer p.name (← d.structName p s.commonNames)
  return [.plain <|
      preamble d ++ Vectors.enumeration vectors ++ Vectors.prototypes vectors ++
        Frame.title "Processor and Core Peripheral Section" ++
        ((d.cpu.map core).getD []) ++ qualifiers ++
        Frame.title "Device Specific Peripheral Section" ++ [""] ++ unionsStart] ++
    described ++
    [.plain (unionsEnd ++ [""] ++ Frame.title "Peripheral memory map")] ++
    ps.map (fun p => .base p.name p.baseAddress) ++
    [.plain ("" :: Frame.title "Peripheral declarations")] ++
    pointers ++
    [.plain ("" :: ps.flatMap interruptList ++ closing d)]

/-- The text of the header of a device. -/
def render (s : Settings) (d : Device) : Except Failure String := do
  return Part.text s (← parts s d)

end RegisterMap.Header
