import RegisterMap.Format
import RegisterMap.Register

/-!
# Settings

What a run reads and writes, which reductions it makes, and how the header looks.
-/

namespace RegisterMap

/-- The choices of a run. -/
structure Settings where
  input : Option String := none
  outputDir : Option String := none
  sourceFormat : Format := .xml
  logLevel : Option String := none
  /-- The format of the description that is written beside the header. -/
  descriptionFormat : Option Format := none
  derivePeripherals : Bool := true
  foldArrays : Bool := true
  groupClusters : Bool := true
  rebuildAddressBlocks : Bool := true
  extractPrefix : Bool := true
  foldRegisters : Bool := false
  shareEnumerations : Bool := false
  ignoreReset : Bool := false
  ignoreAccess : Bool := false
  /-- Field macros end in `_SHIFT` and `_MASK` rather than `_Pos` and `_Msk`. -/
  shiftMaskNames : Bool := true
  /-- Masks are written as numbers rather than shifts. -/
  numericMasks : Bool := false
  registerMacros : Bool := false
  /-- Peripherals and macros take the names that are common among vendors. -/
  commonNames : Bool := true
  bytePadding : Bool := false
  /-- The peripherals left out of the header, in place of the usual ones. -/
  exclusions : Option (List String) := none
  deriving DecidableEq, Repr, Inhabited

namespace Settings

/-- The settings without any reduction that changes the structure. -/
def unreduced : Settings where
  derivePeripherals := false
  foldArrays := false
  groupClusters := false
  rebuildAddressBlocks := false
  extractPrefix := false

/-- The core peripherals that other headers declare. -/
def usualExclusions : List String :=
  ["AIPS", "AXBS", "AIPS0", "AXBS0", "AIPS1", "AXBS1", "DWT", "ITM", "NVIC", "SCB", "SysTick",
   "CoreDebug", "FPU"]

/-- The peripheral is left out of the header. -/
def excludes (s : Settings) (peripheral : String) : Bool :=
  (s.exclusions.getD usualExclusions).contains peripheral

/-- How structures are compared. -/
def comparison (s : Settings) : Comparison := ⟨s.ignoreReset, s.ignoreAccess⟩

end Settings

end RegisterMap
