import RegisterMap.Pattern

/-!
# Macro names

The names that macros have in common among peripherals of a family, and the vendor names that are
put right before.
-/

namespace RegisterMap.MacroNames

open Pattern

/-- The groups of these numbers one after another. -/
def groups (ns : List Nat) : Template := ns.map .group

/-- A family name with an instance digit or without. -/
def instanced (family : String) : Pattern := all [lit family, maybe digit]

/-- A part of a name that an underscore sets off. -/
def tail : Pattern := all [lit "_", anything]

/-- Names of field macros that are put right. -/
def corrections : List Renaming :=
  [⟨all [group 1 (all [words ["FTM", "TPM"], maybe digit, lit "_C", digit]), lit "Cn",
      group 2 anything], groups [1, 2]⟩,
   ⟨all [group 1 (all [instanced "DAC", lit "_DAT"]), group 2 (words ["L", "H"]), group 3 digit,
      group 4 anything], groups [1, 3, 2, 4]⟩,
   ⟨all [group 1 (lit "NV_BACKKEY"), lit "3", group 2 (all [lit "_KEY", anything])],
      groups [1, 2]⟩,
   ⟨all [group 1 (lit "NV_FPROT"), lit "3", group 2 anything], groups [1, 2]⟩,
   ⟨all [group 1 (all [lit "FTF", one inLine, lit "_F", anything]), lit "3", group 2 anything],
      groups [1, 2]⟩,
   ⟨all [group 1 (lit "DMA_DCHPRI"), lit "3", group 2 anything], groups [1, 2]⟩]

/-- Names of field macros without the instance. -/
def families : List Renaming :=
  [⟨all [group 1 (lit "PORT"), one (between 'A' 'F'), group 2 tail], groups [1, 2]⟩,
   ⟨all [maybe (lit "F"), group 1 (lit "GPIO"), one (between 'A' 'F'), group 2 tail],
      groups [1, 2]⟩,
   ⟨all [group 1 (words ["UART", "SPI", "DMAMUX", "ADC", "I2C", "AIPS", "CAN", "I2S", "OSC",
      "DAC", "CMP", "FTM", "TPM"]), digit, group 2 tail], groups [1, 2]⟩]

/-- A member of a cluster, named with its number behind the cluster. -/
def numbered (peripheral : Pattern) (cluster : String) (member : Pattern) : Renaming :=
  ⟨all [group 1 peripheral, lit cluster, group 2 digits, group 3 member], groups [1, 3, 2]⟩

/-- Names of register macros. -/
def accessors : List Renaming :=
  [⟨all [group 1 (all [words ["FTM", "TPM"], maybe digit, lit "_C", digits]), lit "Cn",
      group 2 anything], groups [1, 2]⟩,
   ⟨all [group 1 (all [instanced "FMC", tail]), lit "_",
      group 2 (all [lit "S", digits, anything])], groups [1, 2]⟩,
   numbered (instanced "PIT") "_CHANNEL" anything,
   ⟨all [group 1 (instanced "DAC"), lit "_DAT", group 2 digits, group 3 anything,
      group 4 (words ["H", "L"])], groups [1, 3, 2, 4]⟩,
   numbered (instanced "DAC") "_DAT" anything,
   numbered (instanced "FB") "_CS" anything,
   numbered (instanced "MPU") "_SP" anything,
   numbered (instanced "MTBDWT") "_COMPARATOR" anything,
   numbered (instanced "DMA") "_DMA" anything,
   numbered (words ["DMA", "DTIM", "FBCS"]) "_CH" tail,
   numbered (instanced "USB") "_ENDPOINT" tail]

/-- The name of a field macro without suffix. -/
def field (name : String) : String :=
  Renaming.rename families (Renaming.rename corrections name)

/-- The name of a register macro. -/
def accessor (name : String) : String := Renaming.rename accessors name

end RegisterMap.MacroNames
