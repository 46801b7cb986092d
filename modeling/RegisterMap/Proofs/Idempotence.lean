import Mathlib
import RegisterMap.Proofs.Reduced
import RegisterMap.Proofs.Stages
import RegisterMap.Proofs.Vectors

/-!
# Reducing twice

A device that was reduced is left as it is by a second reduction with the same settings exactly when
its peripherals are stable and collecting its vectors changes nothing (`Device.reduce_reduce`). The
peripherals that the settings stabilize are, and the vectors are collected when no entry of the
vector table has an owner to gain. Otherwise what one pass leaves can open the way for an earlier
one: members that do not fit the first cluster make one of their own (`Device.reduce_pit`).
-/

namespace RegisterMap

namespace Peripheral

open Element Arrays

variable {s : Settings}

/-! ## Folding twice -/

/-- **Folding is idempotent.** Where folding succeeds, folding once more with the same comparison
succeeds and changes nothing. -/
theorem foldArrays_foldArrays {p : Peripheral} {cmp : Comparison} (hp : p.isDerived = false)
    (h : (p.foldArrays cmp).failure = none) :
    (p.foldArrays cmp).state.foldArrays cmp = .pure (p.foldArrays cmp).state := by
  have hrests := rests_foldArrays hp h
  have hname : (p.foldArrays cmp).state.name = p.name := by rw [foldArrays_state]
  have hderived : (p.foldArrays cmp).state.isDerived = false := by
    rw [foldArrays_state]
    exact hp
  rw [← hname] at hrests
  exact foldArrays_of_rests hderived hrests

section Example

/-- Two registers that become an array and a third behind a gap, before an array of clusters with
two more. -/
private def requests : Peripheral :=
  { name := "DMA", baseAddress := 0,
    registers := [
      .register (.plain "C1" 4 32), .register (.plain "C0" 0 32), .register (.plain "C3" 12 32),
      .cluster { name := "R%s", offset := 64, dim := some { indexes := ["0", "1"], stride := 16 } }
        [.register (.plain "S1" 4 32), .register (.plain "S0" 0 32)]] }

theorem foldArrays_foldArrays_requests :
    requests.isDerived = false ∧ (requests.foldArrays {}).failure = none ∧
    (registersAll (requests.foldArrays {}).state.registers).map Register.name =
      ["C%s", "C3", "S%s"] ∧
    (requests.foldArrays {}).state.foldArrays {} = .pure (requests.foldArrays {}).state := by
  have hfold : (requests.foldArrays {}).map
      (fun p => (registersAll p.registers).map Register.name) =
        .pure ["C%s", "C3", "S%s"] := by cbv
  have hdone : (requests.foldArrays {}).failure = none := congrArg Outcome.failure hfold
  exact ⟨rfl, hdone, congrArg Outcome.state hfold, foldArrays_foldArrays rfl hdone⟩

end Example

/-! ## All peripherals -/

theorem reduceAll_eq_pure {qs : List Peripheral}
    (h : ∀ q ∈ qs, ∀ conflicts, Workpiece.reduce s ⟨q, conflicts⟩ = .pure ⟨q, conflicts⟩)
    (conflicts : List String) : reduceAll s conflicts qs = .pure qs := by
  induction qs with
  | nil => rfl
  | cons q qs ih =>
    obtain ⟨hq, hqs⟩ := List.forall_mem_cons.1 h
    unfold reduceAll
    rw [hq]
    simp only [Outcome.pure, List.nil_append]
    rw [ih hqs]
    rfl

/-- What is left of peripherals that were reduced one after another. -/
theorem forall₂_of_reduceAll {conflicts : List String} {ps qs : List Peripheral}
    (h : (reduceAll s conflicts ps).toExcept = .ok qs) :
    List.Forall₂ (fun p q => SameFrame p q ∧ (q.isDerived = true ∨ q.IsReduced s) ∧
      (p.isDerived = false → s.Stabilizes p → q.IsStable s)) ps qs := by
  refine (reduceAll_ok h).imp fun p q hpq => ?_
  obtain ⟨conflicts, w, hw, rfl⟩ := hpq
  cases hown : p.isDerived with
  | true =>
    rw [reduce_of_isDerived hown] at hw
    cases hw
    exact ⟨.refl p, .inl hown, nofun⟩
  | false =>
    obtain ⟨hreduced, hframe⟩ := isReduced_of_reduce hown hw
    exact ⟨hframe, .inr hreduced, fun _ hstabilizes => isStable_of_stabilizes hown hstabilizes hw⟩

/-- The peripherals raise the same interrupts under the same name. -/
def SameInterrupts (p q : Peripheral) : Prop := q.name = p.name ∧ q.interrupts = p.interrupts

theorem interruptsOf_congr {ps qs : List Peripheral} (h : List.Forall₂ SameInterrupts ps qs) :
    VectorTable.interruptsOf qs = VectorTable.interruptsOf ps := by
  unfold VectorTable.interruptsOf
  induction h with
  | nil => rfl
  | cons hpq _ ih => rw [List.flatMap_cons, List.flatMap_cons, ih, hpq.1, hpq.2]

theorem DerivedIn.sameInterrupts {cmp : Comparison} {out : List Peripheral} {p q : Peripheral}
    (h : DerivedIn cmp out p q) : SameInterrupts p q := by
  cases h <;> exact ⟨rfl, rfl⟩

end Peripheral

namespace Device

open Peripheral

theorem interruptsOf_derivePeripherals (d : Device) (cmp : Comparison) :
    VectorTable.interruptsOf (d.derivePeripherals cmp).peripherals =
      VectorTable.interruptsOf d.peripherals :=
  interruptsOf_congr ((d.derivePeripherals_derivedIn cmp).imp fun _ _ => DerivedIn.sameInterrupts)

/-- Peripherals that were derived are not derived anew when the vectors were collected. -/
theorem deriveIf_withVectors (s : Settings) (d : Device) (t : Option VectorTable) :
    ({ d.deriveIf s with vectorTable := t } : Device).deriveIf s =
      { d.deriveIf s with vectorTable := t } := by
  unfold deriveIf
  split
  · simp only [derivePeripherals, deriveAll_deriveAll]
  · rfl

theorem HasOwnIndexes.congr {d e : Device} (h : d.HasOwnIndexes)
    (hvectors : e.vectorTable = d.vectorTable)
    (hinterrupts : VectorTable.interruptsOf e.peripherals =
      VectorTable.interruptsOf d.peripherals) : e.HasOwnIndexes := by
  unfold HasOwnIndexes unownedVectors at *
  rw [hvectors, hinterrupts]
  exact h

theorem HasOwnIndexes.deriveIf {d : Device} (h : d.HasOwnIndexes) (s : Settings) :
    (d.deriveIf s).HasOwnIndexes := by
  rcases deriveIf_cases s d with hd | hd
  · rw [hd]
    exact h
  · rw [hd]
    exact h.congr rfl (interruptsOf_derivePeripherals d s.comparison)

/-- What was derived is reduced, and the rest is as it was. -/
theorem isReduced_deriveIf {d : Device} {s : Settings}
    (h : ∀ p ∈ d.peripherals, p.isDerived = true ∨ p.IsReduced s) :
    ∀ p ∈ (d.deriveIf s).peripherals, p.isDerived = true ∨ p.IsReduced s := by
  rcases deriveIf_cases s d with hd | hd
  · rw [hd]
    exact h
  · rw [hd]
    intro q hq
    obtain ⟨p, hp, hpq⟩ := exists_mem_of_forall₂ (d.derivePeripherals_derivedIn s.comparison) hq
    cases hpq with
    | kept => exact h _ hp
    | derived => exact .inl rfl

/-- Every peripheral that derives from no other is stable, and the vectors are collected. -/
structure IsStable (s : Settings) (d : Device) : Prop where
  peripherals : ∀ p ∈ d.peripherals, p.isDerived = false → p.IsStable s
  vectors : d.collectVectors = .ok d

/-- A device is reduced that is valid, has reduced peripherals and has nothing to derive. -/
structure IsReduced (s : Settings) (d : Device) : Prop where
  valid : d.validate = .ok ()
  peripherals : ∀ p ∈ d.peripherals, p.isDerived = true ∨ p.IsReduced s
  derived : d.deriveIf s = d

theorem isReduced_of_reduce {d e : Device} {s : Settings} (h : (d.reduce s).toExcept = .ok e) :
    e.IsReduced s := by
  obtain ⟨-, ps, hps, hcollected, hvalid⟩ := reduce_ok_iff.1 h
  obtain ⟨t, rfl⟩ := collectVectors_ok hcollected
  refine ⟨hvalid, isReduced_deriveIf fun q hq => ?_, deriveIf_withVectors s _ _⟩
  obtain ⟨p, -, -, hq, -⟩ := exists_mem_of_forall₂ (forall₂_of_reduceAll hps) hq
  exact hq

/-- A reduced device that is stable stays as it is when it is reduced. -/
theorem reduce_of_isReduced {d : Device} {s : Settings} (hd : d.IsReduced s)
    (h : d.IsStable s) : d.reduce s = .pure d := by
  have hall : Peripheral.reduceAll s [] d.peripherals = .pure d.peripherals := by
    refine reduceAll_eq_pure (fun p hp conflicts => ?_) []
    cases hown : p.isDerived with
    | true => exact reduce_of_isDerived hown conflicts
    | false =>
      have hreduced := (hd.peripherals p hp).resolve_left (by simp [hown])
      exact Peripheral.reduce_of_isReduced hreduced (h.peripherals p hp hown) conflicts
  have hcheck : Outcome.check d d.validate = .pure d := by rw [hd.valid]; rfl
  have hreduce : ((Peripheral.reduceAll s [] d.peripherals).map fun ps =>
      { d with peripherals := ps }) = .pure d := by rw [hall]; rfl
  have hderive : Outcome.pure (if s.derivePeripherals then d.derivePeripherals s.comparison else d)
      = .pure d := congrArg Outcome.pure hd.derived
  have hcollect : Outcome.ofExcept d d.collectVectors = .pure d := by rw [h.vectors]; rfl
  unfold Device.reduce
  simp only [hcheck, Outcome.pure_andThen, hreduce, hderive, hcollect]
  rfl

/-- A peripheral that derivation leaves without source is as it was. -/
theorem forall₂_deriveIf (s : Settings) (d : Device) :
    List.Forall₂ (fun p q => q.isDerived = false → q = p) d.peripherals
      (d.deriveIf s).peripherals := by
  rcases deriveIf_cases s d with hd | hd
  · rw [hd]
    exact List.forall₂_same.2 fun p _ _ => rfl
  · rw [hd]
    exact (d.derivePeripherals_derivedIn s.comparison).imp fun _ _ h =>
      DerivedIn.eq_of_not_isDerived h

/-- A reduced device that stays as it is when it is reduced is stable. -/
theorem isStable_of_reduce {d : Device} {s : Settings} (hd : d.IsReduced s)
    (h : (d.reduce s).toExcept = .ok d) : d.IsStable s := by
  obtain ⟨-, ps, hps, hcollected, -⟩ := reduce_ok_iff.1 h
  obtain ⟨t, hsame⟩ := collectVectors_ok hcollected
  have hperipherals : (({ d with peripherals := ps } : Device).deriveIf s).peripherals =
      d.peripherals := (congrArg Device.peripherals hsame).symm
  -- every peripheral was reduced to itself
  have hround : List.Forall₂ (fun p q => q.isDerived = false → ∃ conflicts w,
      (Workpiece.reduce s ⟨p, conflicts⟩).toExcept = .ok w ∧ w.peripheral = q)
      d.peripherals (({ d with peripherals := ps } : Device).deriveIf s).peripherals := by
    refine forall₂_trans (fun p _ r q hpr hrq hown => ?_) (reduceAll_ok hps)
      (forall₂_deriveIf s { d with peripherals := ps })
    rw [hrq hown]
    exact hpr
  rw [hperipherals, List.forall₂_same] at hround
  refine ⟨fun p hp hown => ?_, ?_⟩
  · obtain ⟨conflicts, w, hw, hsame⟩ := hround p hp hown
    have hreduced := (hd.peripherals p hp).resolve_left (by simp [hown])
    exact Peripheral.isStable_of_reduce hreduced hw hsame
  · rw [deriveIf_eq, hperipherals] at hcollected
    exact hcollected

/-- **Reduction.** Reducing a device that was reduced once more with the same settings succeeds and
leaves it as it is exactly when it is stable, and warns of nothing then. A peripheral that the
settings stabilize is stable, and so are the vectors when no entry of the vector table has owners to
gain. -/
theorem reduce_reduce {d e : Device} {s : Settings} (h : (d.reduce s).toExcept = .ok e) :
    ((e.reduce s).toExcept = .ok e ↔ e.IsStable s) ∧ (e.IsStable s → e.reduce s = .pure e) ∧
      List.Forall₂ (fun p q => p.isDerived = false → s.Stabilizes p →
        q.isDerived = true ∨ q.IsStable s) d.peripherals e.peripherals ∧
      (d.HasOwnIndexes → e.collectVectors = .ok e) := by
  have hreduced := isReduced_of_reduce h
  refine ⟨⟨isStable_of_reduce hreduced, fun hstable => ?_⟩, reduce_of_isReduced hreduced, ?_, ?_⟩
  · rw [reduce_of_isReduced hreduced hstable]
    rfl
  · obtain ⟨-, ps, hps, hcollected, -⟩ := reduce_ok_iff.1 h
    obtain ⟨t, rfl⟩ := collectVectors_ok hcollected
    refine forall₂_trans (fun p _ r q hpr hrq hown hstabilizes => ?_) (forall₂_of_reduceAll hps)
      (forall₂_deriveIf s { d with peripherals := ps })
    cases hq : q.isDerived with
    | true => exact .inl rfl
    | false =>
      rw [hrq hq]
      exact .inr (hpr.2.2 hown hstabilizes)
  · intro hvectors
    obtain ⟨-, ps, hps, hcollected, -⟩ := reduce_ok_iff.1 h
    have hinterrupts : VectorTable.interruptsOf ps = VectorTable.interruptsOf d.peripherals :=
      interruptsOf_congr ((forall₂_of_reduceAll hps).imp fun _ _ h =>
        ⟨h.1.name_eq, h.1.interrupts_eq⟩)
    have hown : (({ d with peripherals := ps } : Device).deriveIf s).HasOwnIndexes :=
      (hvectors.congr (e := { d with peripherals := ps }) rfl hinterrupts).deriveIf s
    exact collectVectors_collectVectors hown hcollected

section Example

/-- For each peripheral, what it derives from and the names of its registers. -/
private def outline (d : Device) : List (Option String × List String) :=
  d.peripherals.map fun p => (p.derivedFrom, p.registers.map Element.name)

/-- A converter with two results and a register behind them. -/
private def converter (name : String) (base : Nat) (index : Int) : Peripheral :=
  { name, baseAddress := base
    registers := [.register (.plain "A_R0" 0 32), .register (.plain "A_R1" 4 32),
      .register (.plain "A_CS" 8 32)]
    interrupts := [{ index, name }] }

/-- A converter whose results were folded. -/
private def folded (name : String) (base : Nat) (index : Int) : Peripheral :=
  { converter name base index with
    registers := [.register (.plain "A_R%s" 0 32 (some (.counted 4 2))),
      .register (.plain "A_CS" 8 32)] }

private def blocked (name : String) (base : Nat) (index : Int) : Peripheral :=
  { folded name base index with
    addressBlocks := [{ offset := 0, size := 12, width := 32, usage := "registers" }] }

/-- A converter whose names lost their common part. -/
private def shortened (name : String) (base : Nat) (index : Int) : Peripheral :=
  { blocked name base index with
    description := name, prependToName := some "A"
    registers := [.register (.plain "R%s" 0 32 (some (.counted 4 2))),
      .register (.plain "CS" 8 32)] }

private theorem extractPrefix_blocked {name : String} (hname : name ≠ "A") (base : Nat)
    (index : Int) {conflicts : List String} (hnew : conflicts.contains name = false) :
    Workpiece.extractPrefix ⟨blocked name base index, conflicts⟩ =
      ⟨⟨shortened name base index, conflicts ++ [name]⟩, [.nameConflict name "A"], none⟩ := by
  have hcommon : CommonPrefix.ofNames ["A_R%s".toList, "A_CS".toList] = "A_".toList := by cbv
  have hremovable : CommonPrefix.isRemovable "A_".toList
      ["A_R%s".toList, "A_CS".toList] = true := by cbv
  have hpart : String.ofList (CommonPrefix.trimUnderscores "A_".toList) = "A" := by cbv
  have hconflict : addConflict name conflicts = (true, conflicts ++ [name]) := by
    unfold addConflict
    rw [hnew]
    rfl
  have htaken : (blocked name base index).takePrefix "A_".toList =
      { shortened name base index with description := "" } := by cbv
  unfold Workpiece.extractPrefix
  simp only [blocked, folded, converter, Register.plain, List.map_cons, List.map_nil, Element.name,
    hcommon, hremovable, hpart, Option.any_none, Bool.not_true, Bool.or_false, Bool.false_eq_true,
    if_false, if_neg hname, hconflict, if_true]
  exact congrArg (fun p => (⟨⟨{ p with description := name }, conflicts ++ [name]⟩,
    [.nameConflict name "A"], none⟩ : Outcome Workpiece)) htaken

private theorem foldArrays_converter {name : String} (hname : name = "SAR0" ∨ name = "SAR1")
    (base : Nat) (index : Int) :
    (converter name base index).sort.foldArrays ({} : Settings).comparison =
      .pure (folded name base index) := by
  rcases hname with rfl | rfl
  · cbv
  · cbv

private theorem step_of_pure {asked : Bool} {f : Peripheral → Outcome Peripheral} {w : Workpiece}
    {p : Peripheral} (hasked : asked = true) (h : f w.peripheral = .pure p) :
    (Workpiece.stepIf asked (·.step f) w).toExcept = .ok { w with peripheral := p } := by
  subst hasked
  unfold Workpiece.stepIf Workpiece.step
  simp only [if_true, h]
  rfl

private theorem reduce_converter {name : String} (hname : name = "SAR0" ∨ name = "SAR1")
    (base : Nat) (index : Int) {conflicts : List String}
    (hnew : conflicts.contains name = false) :
    (Workpiece.reduce {} ⟨converter name base index, conflicts⟩).toExcept =
      .ok ⟨shortened name base index, conflicts ++ [name]⟩ := by
  have hgroup : (folded name base index).groupClusters = .pure (folded name base index) := by
    rcases hname with rfl | rfl
    · cbv
    · cbv
  have hblocks : (folded name base index).createAddressBlocks =
      .pure (blocked name base index) := by cbv
  have hother : name ≠ "A" := by
    rcases hname with rfl | rfl
    · decide
    · decide
  have hprefix : (Workpiece.stepIf ({} : Settings).extractPrefix Workpiece.extractPrefix
      ⟨blocked name base index, conflicts⟩).toExcept =
        .ok ⟨shortened name base index, conflicts ++ [name]⟩ :=
    congrArg Outcome.toExcept (extractPrefix_blocked hother base index hnew)
  have hsort : (shortened name base index).sort = shortened name base index := by cbv
  exact (Peripheral.reduce_ok_iff rfl).2 ⟨⟨folded name base index, conflicts⟩,
    ⟨folded name base index, conflicts⟩, ⟨blocked name base index, conflicts⟩,
    ⟨shortened name base index, conflicts ++ [name]⟩,
    ⟨shortened name base index, conflicts ++ [name]⟩,
    ⟨shortened name base index, conflicts ++ [name]⟩,
    step_of_pure rfl (foldArrays_converter hname base index), step_of_pure rfl hgroup,
    step_of_pure rfl hblocks, hprefix, rfl, rfl,
    congrArg (fun p => (⟨p, conflicts ++ [name]⟩ : Workpiece)) hsort⟩

/-- Two converters with the same registers, and a vector that no peripheral owns. -/
private def converters : Device :=
  { name := "D", peripherals := [converter "SAR0" 0x4000 1, converter "SAR1" 0x5000 2]
    cpu := some {}
    vectorTable := some (VectorTable.empty.insert 7 { index := 7, name := "WDOG" }) }

private theorem reduce_converters :
    ∃ e, (converters.reduce {}).toExcept = .ok e ∧ e.peripherals =
      [shortened "SAR0" 0x4000 1, (shortened "SAR1" 0x5000 2).deriveFrom "SAR0"] := by
  have hsecond : (reduceAll {} ["SAR0"] [converter "SAR1" 0x5000 2]).toExcept =
      .ok [shortened "SAR1" 0x5000 2] :=
    reduceAll_cons_ok_iff.2 ⟨_, _, reduce_converter (.inr rfl) _ _ (by decide), rfl, rfl⟩
  have hall : (reduceAll {} [] converters.peripherals).toExcept =
      .ok [shortened "SAR0" 0x4000 1, shortened "SAR1" 0x5000 2] :=
    reduceAll_cons_ok_iff.2 ⟨_, _, reduce_converter (.inl rfl) _ _ rfl, hsecond, rfl⟩
  have hderived : ({ converters with peripherals :=
        [shortened "SAR0" 0x4000 1, shortened "SAR1" 0x5000 2] } : Device).deriveIf {} =
      { converters with peripherals :=
        [shortened "SAR0" 0x4000 1, (shortened "SAR1" 0x5000 2).deriveFrom "SAR0"] } := by cbv
  have hcollected : ({ converters with peripherals :=
        [shortened "SAR0" 0x4000 1, (shortened "SAR1" 0x5000 2).deriveFrom "SAR0"] } :
      Device).collectVectors.toOption.map (fun e => (e.validate, e.peripherals)) =
      some (.ok (),
        [shortened "SAR0" 0x4000 1, (shortened "SAR1" 0x5000 2).deriveFrom "SAR0"]) := by cbv
  obtain ⟨e, he, hsame⟩ := Option.map_eq_some_iff.1 hcollected
  refine ⟨e, reduce_ok_iff.2 ⟨by cbv, _, hall, ?_, congrArg Prod.fst hsame⟩,
    congrArg Prod.snd hsame⟩
  rw [hderived]
  exact eq_ok_of_toOption he

theorem reduce_reduce_converters :
    ({} : Settings).Stabilizes (converter "SAR2" 0x6000 3) ∧
      ∃ e, (converters.reduce {}).toExcept = .ok e ∧
        outline e = [(none, ["R%s", "CS"]), (some "SAR0", [])] ∧ e.IsStable {} ∧
        e.reduce {} = .pure e := by
  have hline : (converter "SAR2" 0x6000 3).HasLineNames := by
    intro e he
    simp only [converter, List.mem_cons, List.not_mem_nil, or_false] at he
    rcases he with rfl | rfl | rfl
    · exact .register (by decide)
    · exact .register (by decide)
    · exact .register (by decide)
  have hvectors : converters.HasOwnIndexes := by
    unfold HasOwnIndexes
    decide
  have harrays : (shortened "SAR0" 0x4000 1).foldArrays {} = .pure (shortened "SAR0" 0x4000 1) := by
    cbv
  have hstable : (shortened "SAR0" 0x4000 1).IsStable {} := by
    refine ⟨fun _ => ?_, fun _ => ?_, fun h => absurd h Bool.false_ne_true⟩
    · have hrests := @rests_foldArrays (shortened "SAR0" 0x4000 1) {} rfl
        (congrArg Outcome.failure harrays)
      rw [harrays] at hrests
      exact hrests
    · exact isGrouped_of_rulesOf (by decide)
  obtain ⟨e, he, hperipherals⟩ := reduce_converters
  obtain ⟨-, hpure, -, hcollected⟩ := reduce_reduce he
  have hall : e.IsStable {} := by
    refine ⟨fun p hp hown => ?_, hcollected hvectors⟩
    rw [hperipherals] at hp
    rcases List.mem_pair.1 hp with rfl | rfl
    · exact hstable
    · cases hown
  refine ⟨⟨fun _ => rfl, fun _ _ => .inr ⟨rfl, hline⟩, fun h => absurd h Bool.false_ne_true⟩,
    e, he, ?_, hall, hpure hall⟩
  unfold outline
  rw [hperipherals]
  rfl

/-- Two groups of registers at different distances. -/
private def pit : Device :=
  { name := "D"
    peripherals := [
      { name := "PIT", baseAddress := 0x1000
        registers := [.register (.plain "A0" 0 32), .register (.plain "A1" 16 32),
          .register (.plain "B0" 256 32), .register (.plain "B1" 264 32)] }] }

/-- The group that did not fit the cluster becomes one of the same name the second time. -/
theorem reduce_pit :
    ∃ d e, (pit.reduce {}).toExcept = .ok d ∧ (d.reduce {}).toExcept = .ok e ∧ e ≠ d ∧
      outline d = [(none, ["CHANNEL,@p@f@i", "B0", "B1"])] ∧
      outline e = [(none, ["CHANNEL,@p@f@i", "CHANNEL,@p@f@i"])] := by
  have heval : ((pit.reduce {}).toExcept.toOption.bind fun d =>
      (d.reduce {}).toExcept.toOption.map fun e => (outline d, outline e)) =
      some ([(none, ["CHANNEL,@p@f@i", "B0", "B1"])],
        [(none, ["CHANNEL,@p@f@i", "CHANNEL,@p@f@i"])]) := by cbv
  obtain ⟨d, hd, heval⟩ := Option.bind_eq_some_iff.1 heval
  obtain ⟨e, he, heval⟩ := Option.map_eq_some_iff.1 heval
  have hfirst : outline d = [(none, ["CHANNEL,@p@f@i", "B0", "B1"])] := congrArg Prod.fst heval
  have hsecond : outline e = [(none, ["CHANNEL,@p@f@i", "CHANNEL,@p@f@i"])] :=
    congrArg Prod.snd heval
  refine ⟨d, e, eq_ok_of_toOption hd, eq_ok_of_toOption he, ?_, hfirst, hsecond⟩
  rintro rfl
  rw [hfirst] at hsecond
  exact absurd hsecond (by decide)

end Example

end Device

end RegisterMap
