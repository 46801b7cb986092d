import RegisterMap.Reduction.Arrays
import RegisterMap.Reduction.Clusters
import RegisterMap.Reduction.CommonPrefix
import RegisterMap.Reduction.Derivation
import RegisterMap.Settings

/-!
# Reductions

The steps that bring a device into its shortest form, in their order, as far as the settings ask
for them.
-/

namespace RegisterMap

namespace Workpiece

/-- A step that the settings may leave out. -/
def stepIf (asked : Bool) (f : Workpiece → Outcome Workpiece) (w : Workpiece) :
    Outcome Workpiece :=
  if asked then f w else .pure w

/-- The peripheral in its shortest form; a derived one stays as it is. -/
def reduce (s : Settings) (w : Workpiece) : Outcome Workpiece :=
  if w.peripheral.isDerived then .pure w
  else
    let inOrder : Workpiece := { w with peripheral := w.peripheral.sort }
    (stepIf s.foldArrays (·.step (·.foldArrays s.comparison)) inOrder)
      |>.andThen (stepIf s.groupClusters (·.step Peripheral.groupClusters))
      |>.andThen (fun w =>
        stepIf (s.rebuildAddressBlocks || w.peripheral.addressBlocks.isEmpty)
          (·.step Peripheral.createAddressBlocks) w)
      |>.andThen (stepIf s.extractPrefix extractPrefix)
      |>.andThen (stepIf s.foldRegisters (·.step fun p => .pure (p.foldRegisters s.comparison)))
      |>.andThen (stepIf s.shareEnumerations (·.step fun p => .pure p.shareEnumerations))
      |>.andThen (·.step fun p => .pure p.sort)

end Workpiece

/-- Reduces peripherals one after another, up to the first that cannot be. -/
def Peripheral.reduceAll (s : Settings) : (conflicts : List String) → List Peripheral →
    Outcome (List Peripheral)
  | _, [] => .pure []
  | conflicts, p :: ps =>
    let here := Workpiece.reduce s ⟨p, conflicts⟩
    match here.failure with
    | some f =>
      { state := here.state.peripheral :: ps
        warnings := here.warnings
        failure := some (f.within (.reducing p.name)) }
    | none =>
      let rest := reduceAll s here.state.conflicts ps
      { state := here.state.peripheral :: rest.state
        warnings := here.warnings ++ rest.warnings
        failure := rest.failure }

/-- The device in its shortest form. It must be valid before and is checked again after. -/
def Device.reduce (s : Settings) (d : Device) : Outcome Device :=
  (Outcome.check d d.validate)
    |>.andThen (fun d =>
      (Peripheral.reduceAll s [] d.peripherals).map fun ps => { d with peripherals := ps })
    |>.andThen (fun d =>
      .pure (if s.derivePeripherals then d.derivePeripherals s.comparison else d))
    |>.andThen (fun d => .ofExcept d d.collectVectors)
    |>.andThen (fun d => (Outcome.check d d.validate).within (.reduced d.name))

end RegisterMap
