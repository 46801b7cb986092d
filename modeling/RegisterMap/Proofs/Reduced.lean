import Mathlib
import RegisterMap.Proofs.Arrays.Remaining
import RegisterMap.Proofs.Blocks.Footprint
import RegisterMap.Proofs.Clusters.Leftovers
import RegisterMap.Proofs.Clusters.Members
import RegisterMap.Proofs.Prefix.Indexes
import RegisterMap.Reduction

/-!
# Reduced peripherals

What a reduction leaves of a peripheral is in order, has its own address blocks, no common part of
names to take and no enumerations to share (`Peripheral.IsReduced`), whatever it was made of.
Reduced once more it stays as it is exactly when the passes that compare registers find none to put
together in it (`Peripheral.IsStable`, `Peripheral.reduce_of_isReduced`,
`Peripheral.isStable_of_reduce`): the passes in between can have left registers over that now make a
cluster, or given them names that spell an array or fields that are alike. A peripheral without
rules of its own is stable when fields that share enumerations are not compared
(`Settings.Stabilizes`).
-/

namespace RegisterMap

/-! ## Steps -/

namespace Workpiece

theorem stepIf_ok {asked : Bool} {f : Workpiece → Outcome Workpiece} {w w' : Workpiece}
    (h : (stepIf asked f w).toExcept = .ok w') :
    asked = true ∧ (f w).toExcept = .ok w' ∨ asked = false ∧ w' = w := by
  cases asked with
  | true => exact .inl ⟨rfl, h⟩
  | false =>
    cases h
    exact .inr ⟨rfl, rfl⟩

theorem stepIf_eq_pure {asked : Bool} {f : Workpiece → Outcome Workpiece} {w : Workpiece}
    (h : asked = true → f w = .pure w) : stepIf asked f w = .pure w := by
  cases asked with
  | true => exact h rfl
  | false => rfl

theorem step_ok {f : Peripheral → Outcome Peripheral} {w w' : Workpiece}
    (h : (w.step f).toExcept = .ok w') : (f w.peripheral).toExcept = .ok w'.peripheral := by
  obtain ⟨p, hp, rfl⟩ := Outcome.map_ok h
  exact hp

theorem step_eq_pure {f : Peripheral → Outcome Peripheral} {w : Workpiece}
    (h : f w.peripheral = .pure w.peripheral) : w.step f = .pure w := by
  unfold step
  rw [h]
  rfl

theorem eq_of_pure {o : Outcome Workpiece} {w w' : Workpiece} (hpure : o = .pure w)
    (h : o.toExcept = .ok w') : w' = w := by
  rw [hpure] at h
  exact (Except.ok.inj h).symm

theorem step_pure_eq {f : Peripheral → Peripheral} {w : Workpiece}
    (h : f w.peripheral = w.peripheral) : w.step (fun p => .pure (f p)) = .pure w :=
  step_eq_pure (congrArg Outcome.pure h)

end Workpiece

namespace Peripheral

open Element Arrays Workpiece

/-- The peripherals differ in their registers, their address blocks, their descriptions and what is
put before their register names at most. -/
def SameFrame (p q : Peripheral) : Prop :=
  q = { p with
    registers := q.registers
    addressBlocks := q.addressBlocks
    description := q.description
    prependToName := q.prependToName }

namespace SameFrame

variable {p q r : Peripheral}

theorem refl (p : Peripheral) : SameFrame p p := rfl

theorem trans (hpq : SameFrame p q) (hqr : SameFrame q r) : SameFrame p r := by
  unfold SameFrame at *
  rw [hqr, hpq]

theorem name_eq (h : SameFrame p q) : q.name = p.name := by rw [h]

theorem isDerived_eq (h : SameFrame p q) : q.isDerived = p.isDerived := by rw [h]; rfl

theorem interrupts_eq (h : SameFrame p q) : q.interrupts = p.interrupts := by rw [h]

end SameFrame

/-- The peripheral is in order, nothing in it is deleted where that matters, and no address blocks
are to be made of its registers. -/
structure IsGrounded (s : Settings) (p : Peripheral) : Prop where
  own : p.isDerived = false
  sorted : sortAll p.registers = p.registers
  intact : s.foldArrays = true ∨ s.groupClusters = true ∧ Clusters.rulesOf p.name ≠ [] →
    isIntactAll p.registers = true
  blocks : (s.rebuildAddressBlocks || p.addressBlocks.isEmpty) = true → p.HasOwnBlocks

/-- No pass finds anything to do but those that compare registers. -/
structure IsReduced (s : Settings) (p : Peripheral) : Prop extends IsGrounded s p where
  names : s.extractPrefix = true → p.HasNoPrefix
  shared : s.shareEnumerations = true → p.shareEnumerations = p

/-- The passes that compare registers find none to put together. -/
structure IsStable (s : Settings) (p : Peripheral) : Prop where
  /-- No registers make an array under the names and with the fields that they have now. -/
  arrays : s.foldArrays = true → Site.Rests ⟨p.name, s.comparison⟩ p.registers
  /-- No two registers are left over, or were named so, that are instances of one member. -/
  groups : s.groupClusters = true → p.IsGrouped
  /-- No register is like an earlier one with the fields that it has now. -/
  registers : s.foldRegisters = true → p.foldRegisters s.comparison = p

end Peripheral

/-- No pass makes anything of the peripheral that an earlier one would take up. -/
structure Settings.Stabilizes (s : Settings) (p : Peripheral) : Prop where
  /-- There are no rules for clusters of its registers, so that none can be left over. -/
  groups : s.groupClusters = true → Clusters.rulesOf p.name = []
  /-- Where arrays are folded, its register names lose no common part, or indexes are found in what
  is left of them as in the whole names. -/
  names : s.foldArrays = true → s.extractPrefix = true →
    p.prependToName.any (!·.isEmpty) = true ∨ Arrays.isUsual p.name = true ∧ p.HasLineNames
  /-- Fields that share enumerations are not compared any more. -/
  enumerations : s.shareEnumerations = true → s.foldArrays = false ∧ s.foldRegisters = false

namespace Peripheral

open Element Arrays Workpiece

variable {s : Settings} {p q : Peripheral} {w w' : Workpiece}

theorem sort_eq (h : sortAll p.registers = p.registers) : p.sort = p := by
  unfold sort
  rw [h]

/-! ## Passes that find nothing -/

theorem stepIf_foldArrays (hown : p.isDerived = false)
    (h : s.foldArrays = true → Site.Rests ⟨p.name, s.comparison⟩ p.registers)
    (conflicts : List String) :
    stepIf s.foldArrays (·.step (·.foldArrays s.comparison)) ⟨p, conflicts⟩ =
      .pure ⟨p, conflicts⟩ :=
  stepIf_eq_pure fun hs => step_eq_pure (foldArrays_of_rests hown (h hs))

theorem stepIf_groupClusters (hp : p.IsGrounded s) (h : s.groupClusters = true → p.IsGrouped)
    (conflicts : List String) :
    stepIf s.groupClusters (·.step groupClusters) ⟨p, conflicts⟩ = .pure ⟨p, conflicts⟩ :=
  stepIf_eq_pure fun hs => step_eq_pure
    (groupClusters_of_isGrouped hp.sorted (fun hrules => hp.intact (.inr ⟨hs, hrules⟩)) (h hs))

theorem stepIf_createAddressBlocks (hp : p.IsGrounded s) (conflicts : List String) :
    stepIf (s.rebuildAddressBlocks || p.addressBlocks.isEmpty) (·.step createAddressBlocks)
      ⟨p, conflicts⟩ = .pure ⟨p, conflicts⟩ :=
  stepIf_eq_pure fun hs => step_eq_pure
    (createAddressBlocks_of_hasOwnBlocks (sort_eq hp.sorted) (hp.blocks hs))

theorem stepIf_extractPrefix (hp : p.IsReduced s) (conflicts : List String) :
    stepIf s.extractPrefix extractPrefix ⟨p, conflicts⟩ = .pure ⟨p, conflicts⟩ :=
  stepIf_eq_pure fun hs => extractPrefix_of_hasNoPrefix (hp.names hs) conflicts

/-- A stable peripheral in which no other pass finds anything to do stays as it is. -/
theorem reduce_of_isReduced (hp : p.IsReduced s) (h : p.IsStable s) (conflicts : List String) :
    Workpiece.reduce s ⟨p, conflicts⟩ = .pure ⟨p, conflicts⟩ := by
  have hsort : p.sort = p := sort_eq hp.sorted
  have hfolded : stepIf s.foldRegisters
      (·.step fun p => .pure (p.foldRegisters s.comparison)) ⟨p, conflicts⟩ =
      .pure ⟨p, conflicts⟩ :=
    stepIf_eq_pure fun hs => step_pure_eq (h.registers hs)
  have hshared : stepIf s.shareEnumerations (·.step fun p => .pure p.shareEnumerations)
      ⟨p, conflicts⟩ = .pure ⟨p, conflicts⟩ :=
    stepIf_eq_pure fun hs => step_pure_eq (hp.shared hs)
  unfold Workpiece.reduce
  rw [if_neg (by simp [hp.own])]
  simp only [hsort, stepIf_foldArrays hp.own h.arrays,
    stepIf_groupClusters hp.toIsGrounded h.groups, stepIf_createAddressBlocks hp.toIsGrounded,
    stepIf_extractPrefix hp, hfolded, hshared, Outcome.pure_andThen]
  exact step_pure_eq hsort

/-! ## What the passes establish -/

/-- Passes that leave footprints and blocks leave a peripheral grounded. -/
theorem IsGrounded.of_sameBlocks (hp : p.IsGrounded s) (h : SameBlocks p q)
    (hown : q.isDerived = p.isDerived) (hsorted : sortAll q.registers = q.registers) :
    q.IsGrounded s where
  own := hown.trans hp.own
  sorted := hsorted
  intact hs := by
    rw [h.name_eq] at hs
    exact h.isIntactAll_eq.trans (hp.intact hs)
  blocks hs := by
    rw [h.blocks_eq] at hs
    exact (hp.blocks hs).congr h

theorem foldArrays_ok (hown : w.peripheral.isDerived = false)
    (hsorted : sortAll w.peripheral.registers = w.peripheral.registers)
    (h : (stepIf s.foldArrays (·.step (·.foldArrays s.comparison)) w).toExcept = .ok w') :
    SameFrame w.peripheral w'.peripheral ∧
      w'.peripheral.prependToName = w.peripheral.prependToName ∧
      sortAll w'.peripheral.registers = w'.peripheral.registers ∧
      (s.foldArrays = true →
        Site.Rests ⟨w'.peripheral.name, s.comparison⟩ w'.peripheral.registers ∧
        w'.peripheral = (w.peripheral.foldArrays s.comparison).state) ∧
      (s.foldArrays = false → w' = w) := by
  rcases stepIf_ok h with ⟨hs, h⟩ | ⟨hs, rfl⟩
  · obtain ⟨hdone, hstate⟩ := Outcome.toExcept_eq_ok_iff.1 (step_ok h)
    have hrests := rests_foldArrays hown hdone
    have hframe := foldArrays_state w.peripheral s.comparison
    rw [hstate] at hrests hframe
    have hname : w'.peripheral.name = w.peripheral.name := by rw [hframe]
    rw [← hname] at hrests
    refine ⟨?_, by rw [hframe], hrests.sorted, fun _ => ⟨hrests, hstate.symm⟩,
      fun hs' => absurd hs (Bool.eq_false_iff.1 hs')⟩
    unfold SameFrame
    rw [hframe]
  · exact ⟨.refl _, rfl, hsorted, fun hs' => absurd hs' (Bool.eq_false_iff.1 hs), fun _ => rfl⟩

theorem groupClusters_ok (hown : w.peripheral.isDerived = false)
    (hsorted : sortAll w.peripheral.registers = w.peripheral.registers)
    (h : (stepIf s.groupClusters (·.step groupClusters) w).toExcept = .ok w') :
    SameFrame w.peripheral w'.peripheral ∧
      w'.peripheral.prependToName = w.peripheral.prependToName ∧
      sortAll w'.peripheral.registers = w'.peripheral.registers ∧
      (isIntactAll w.peripheral.registers = true ∨
          s.groupClusters = true ∧ Clusters.rulesOf w.peripheral.name ≠ [] →
        isIntactAll w'.peripheral.registers = true) := by
  rcases stepIf_ok h with ⟨-, h⟩ | ⟨hs, rfl⟩
  · have hstate := (Outcome.toExcept_eq_ok_iff.1 (step_ok h)).2
    have hframe := groupClusters_state w.peripheral
    obtain ⟨hsorted', hintact⟩ := arranged_groupClusters hown
    rw [hstate] at hframe hsorted' hintact
    refine ⟨?_, by rw [hframe], hsorted', fun h => hintact (h.imp id And.right)⟩
    unfold SameFrame
    rw [hframe]
  · refine ⟨.refl _, rfl, hsorted, fun h => h.resolve_right fun h => ?_⟩
    exact absurd h.1 (Bool.eq_false_iff.1 hs)

theorem createAddressBlocks_ok (hown : p.isDerived = false) (hsort : p.sort = p)
    (h : p.createAddressBlocks.toExcept = .ok q) :
    q = { p with addressBlocks := q.addressBlocks } ∧ q.HasOwnBlocks := by
  obtain ⟨hdone, hstate⟩ := Outcome.toExcept_eq_ok_iff.1 h
  have hblocks := hasOwnBlocks_createAddressBlocks hown hdone
  rw [hstate] at hblocks
  refine ⟨?_, hblocks⟩
  unfold createAddressBlocks at h
  rw [if_neg (by simp [hown]), Outcome.toExcept_ofExcept, hsort] at h
  cases hbs : blocksOf p with
  | error f =>
    rw [hbs] at h
    cases h
  | ok bs =>
    rw [hbs] at h
    cases h
    rfl

theorem createAddressBlocks_step (hown : w.peripheral.isDerived = false)
    (hsorted : sortAll w.peripheral.registers = w.peripheral.registers)
    (hintact : s.foldArrays = true ∨
        s.groupClusters = true ∧ Clusters.rulesOf w.peripheral.name ≠ [] →
      isIntactAll w.peripheral.registers = true)
    (h : (stepIf (s.rebuildAddressBlocks || w.peripheral.addressBlocks.isEmpty)
      (·.step createAddressBlocks) w).toExcept = .ok w') :
    w'.peripheral.IsGrounded s ∧ SameFrame w.peripheral w'.peripheral ∧
      w'.peripheral.prependToName = w.peripheral.prependToName ∧
      w'.peripheral.registers = w.peripheral.registers := by
  rcases stepIf_ok h with ⟨-, h⟩ | ⟨hs, rfl⟩
  · obtain ⟨hq, hblocks⟩ := createAddressBlocks_ok hown (sort_eq hsorted) (step_ok h)
    rw [hq]
    rw [hq] at hblocks
    exact ⟨⟨hown, hsorted, hintact, fun _ => hblocks⟩, rfl, rfl, rfl⟩
  · exact ⟨⟨hown, hsorted, hintact, fun hs' => absurd hs' (Bool.eq_false_iff.1 hs)⟩,
      .refl _, rfl, rfl⟩

/-- What the taking of a common part leaves: everything, or names without the common part. -/
theorem extractPrefix_cases (h : (stepIf s.extractPrefix extractPrefix w).toExcept = .ok w') :
    (w'.peripheral = w.peripheral ∧ (s.extractPrefix = true → w.peripheral.HasNoPrefix)) ∨
      s.extractPrefix = true ∧ ¬w.peripheral.HasNoPrefix ∧ ∃ description, w'.peripheral =
        { w.peripheral.takePrefix (CommonPrefix.ofNames w.peripheral.elementNames) with
          description } := by
  rcases stepIf_ok h with ⟨hs, h⟩ | ⟨hs, rfl⟩
  · by_cases hnone : w.peripheral.HasNoPrefix
    · rw [extractPrefix_of_hasNoPrefix hnone w.conflicts] at h
      cases h
      exact .inl ⟨rfl, fun _ => hnone⟩
    · obtain ⟨-, description, hq⟩ := extractPrefix_of_not_hasNoPrefix hnone
      rw [(Outcome.toExcept_eq_ok_iff.1 h).2] at hq
      exact .inr ⟨hs, hnone, description, hq⟩
  · exact .inl ⟨rfl, fun hs' => absurd hs' (Bool.eq_false_iff.1 hs)⟩

theorem sameBlocks_withDescription (p : Peripheral) (description : String) :
    SameBlocks p { p with description } := ⟨rfl, rfl, rfl, rfl, rfl⟩

theorem extractPrefix_ok (hw : w.peripheral.IsGrounded s)
    (h : (stepIf s.extractPrefix extractPrefix w).toExcept = .ok w') :
    w'.peripheral.IsGrounded s ∧ SameFrame w.peripheral w'.peripheral ∧
      SameBlocks w.peripheral w'.peripheral ∧
      (s.extractPrefix = true → w'.peripheral.HasNoPrefix) := by
  rcases extractPrefix_cases h with ⟨hq, hnone⟩ | ⟨-, -, description, hq⟩
  · rw [hq]
    exact ⟨hw, .refl _, .refl _, hnone⟩
  · have hblocks := (sameBlocks_takePrefix w.peripheral
      (CommonPrefix.ofNames w.peripheral.elementNames)).trans
        (sameBlocks_withDescription _ description)
    have hsorted := sortAll_takePrefix (fun n hn => CommonPrefix.ofNames_isPrefix hn) hw.sorted
    rw [hq]
    exact ⟨hw.of_sameBlocks hblocks rfl hsorted, rfl, hblocks,
      fun _ => (hasNoPrefix_takePrefix w.peripheral).congr rfl rfl⟩

theorem foldRegisters_ok (hw : w.peripheral.IsGrounded s)
    (h : (stepIf s.foldRegisters
      (·.step fun p => .pure (p.foldRegisters s.comparison)) w).toExcept = .ok w') :
    w'.peripheral.IsGrounded s ∧ SameFrame w.peripheral w'.peripheral ∧
      SameBlocks w.peripheral w'.peripheral ∧
      (w.peripheral.HasNoPrefix → w'.peripheral.HasNoPrefix) ∧
      (s.foldRegisters = true → w'.peripheral = w.peripheral.foldRegisters s.comparison) ∧
      (s.foldRegisters = false → w' = w) := by
  rcases stepIf_ok h with ⟨hs, h⟩ | ⟨hs, rfl⟩
  · have hq : w'.peripheral = w.peripheral.foldRegisters s.comparison :=
      (Except.ok.inj (step_ok h)).symm
    have hfold := foldedFrom_foldElements s.comparison [] w.peripheral.registers
    have hsorted := sortAll_of_foldedFrom hfold hw.sorted
    have hnames : (w.peripheral.foldRegisters s.comparison).elementNames =
        w.peripheral.elementNames :=
      elementNames_of_samePlace (hfold.imp fun _ _ => FoldedFrom.samePlace)
    have hblocks := sameBlocks_foldRegisters w.peripheral s.comparison
    rw [hq]
    exact ⟨hw.of_sameBlocks hblocks rfl hsorted, rfl, hblocks,
      fun hnone => hnone.congr rfl hnames, fun _ => rfl,
      fun hs' => absurd hs (Bool.eq_false_iff.1 hs')⟩
  · exact ⟨hw, .refl _, .refl _, id, fun hs' => absurd hs' (Bool.eq_false_iff.1 hs),
      fun _ => rfl⟩

theorem shareEnumerations_ok (hw : w.peripheral.IsGrounded s)
    (h : (stepIf s.shareEnumerations (·.step fun p => .pure p.shareEnumerations) w).toExcept =
      .ok w') :
    w'.peripheral.IsGrounded s ∧ SameFrame w.peripheral w'.peripheral ∧
      SameBlocks w.peripheral w'.peripheral ∧
      (w.peripheral.HasNoPrefix → w'.peripheral.HasNoPrefix) ∧
      (s.shareEnumerations = true → w'.peripheral = w.peripheral.shareEnumerations) ∧
      (s.shareEnumerations = false → w' = w) := by
  rcases stepIf_ok h with ⟨hs, h⟩ | ⟨hs, rfl⟩
  · have hq : w'.peripheral = w.peripheral.shareEnumerations :=
      (Except.ok.inj (step_ok h)).symm
    have hsorted : sortAll w.peripheral.shareEnumerations.registers =
        w.peripheral.shareEnumerations.registers := by
      unfold shareEnumerations
      rw [sortAll_mapRegistersAll keepsPlaces_extractSimilarFields, hw.sorted]
    have hnames : w.peripheral.shareEnumerations.elementNames = w.peripheral.elementNames := by
      apply elementNames_of_samePlace
      show List.Forall₂ SamePlace w.peripheral.registers (mapRegistersAll _ w.peripheral.registers)
      rw [mapRegistersAll_eq_map, List.forall₂_map_right_iff]
      exact List.forall₂_same.2 fun e _ => keepsPlaces_extractSimilarFields.mapRegisters e
    have hblocks := sameBlocks_shareEnumerations w.peripheral
    rw [hq]
    exact ⟨hw.of_sameBlocks hblocks rfl hsorted, rfl, hblocks,
      fun hnone => hnone.congr rfl hnames, fun _ => rfl,
      fun hs' => absurd hs (Bool.eq_false_iff.1 hs')⟩
  · exact ⟨hw, .refl _, .refl _, id, fun hs' => absurd hs' (Bool.eq_false_iff.1 hs),
      fun _ => rfl⟩

/-- The stages of a reduction that succeeds. -/
theorem reduce_ok_iff (hown : p.isDerived = false) {conflicts : List String} :
    (Workpiece.reduce s ⟨p, conflicts⟩).toExcept = .ok w ↔ ∃ w₁ w₂ w₃ w₄ w₅ w₆,
      (stepIf s.foldArrays (·.step (·.foldArrays s.comparison)) ⟨p.sort, conflicts⟩).toExcept =
        .ok w₁ ∧
      (stepIf s.groupClusters (·.step groupClusters) w₁).toExcept = .ok w₂ ∧
      (stepIf (s.rebuildAddressBlocks || w₂.peripheral.addressBlocks.isEmpty)
        (·.step createAddressBlocks) w₂).toExcept = .ok w₃ ∧
      (stepIf s.extractPrefix extractPrefix w₃).toExcept = .ok w₄ ∧
      (stepIf s.foldRegisters
        (·.step fun p => .pure (p.foldRegisters s.comparison)) w₄).toExcept = .ok w₅ ∧
      (stepIf s.shareEnumerations (·.step fun p => .pure p.shareEnumerations) w₅).toExcept =
        .ok w₆ ∧
      { w₆ with peripheral := w₆.peripheral.sort } = w := by
  unfold Workpiece.reduce
  rw [if_neg (by simp [hown])]
  simp only [Outcome.toExcept_andThen, bind_eq_ok]
  constructor
  · rintro ⟨w₆, ⟨w₅, ⟨w₄, ⟨w₃, ⟨w₂, ⟨w₁, h₁, h₂⟩, h₃⟩, h₄⟩, h₅⟩, h₆⟩, h₇⟩
    exact ⟨w₁, w₂, w₃, w₄, w₅, w₆, h₁, h₂, h₃, h₄, h₅, h₆, Except.ok.inj h₇⟩
  · rintro ⟨w₁, w₂, w₃, w₄, w₅, w₆, h₁, h₂, h₃, h₄, h₅, h₆, h₇⟩
    exact ⟨w₆, ⟨w₅, ⟨w₄, ⟨w₃, ⟨w₂, ⟨w₁, h₁, h₂⟩, h₃⟩, h₄⟩, h₅⟩, h₆⟩, congrArg Except.ok h₇⟩

/-- The passes up to the making of address blocks leave a peripheral grounded. -/
theorem isGrounded_ok {w₀ w₁ w₂ w₃ : Workpiece} (hown : w₀.peripheral.isDerived = false)
    (hsorted : sortAll w₀.peripheral.registers = w₀.peripheral.registers)
    (h₁ : (stepIf s.foldArrays (·.step (·.foldArrays s.comparison)) w₀).toExcept = .ok w₁)
    (h₂ : (stepIf s.groupClusters (·.step groupClusters) w₁).toExcept = .ok w₂)
    (h₃ : (stepIf (s.rebuildAddressBlocks || w₂.peripheral.addressBlocks.isEmpty)
      (·.step createAddressBlocks) w₂).toExcept = .ok w₃) :
    w₃.peripheral.IsGrounded s ∧ SameFrame w₀.peripheral w₃.peripheral ∧
      w₃.peripheral.registers = w₂.peripheral.registers := by
  obtain ⟨hframe₁, -, hsorted₁, hfolded₁, -⟩ := foldArrays_ok hown hsorted h₁
  have hown₁ : w₁.peripheral.isDerived = false := hframe₁.isDerived_eq.trans hown
  obtain ⟨hframe₂, -, hsorted₂, hintact₂⟩ := groupClusters_ok hown₁ hsorted₁ h₂
  have hown₂ : w₂.peripheral.isDerived = false := hframe₂.isDerived_eq.trans hown₁
  have hintact₂ : s.foldArrays = true ∨
      s.groupClusters = true ∧ Clusters.rulesOf w₂.peripheral.name ≠ [] →
        isIntactAll w₂.peripheral.registers = true := by
    rw [hframe₂.name_eq]
    exact fun h => hintact₂ (h.imp_left fun hs => (hfolded₁ hs).1.intact)
  obtain ⟨hground₃, hframe₃, -, hregisters₃⟩ :=
    createAddressBlocks_step hown₂ hsorted₂ hintact₂ h₃
  exact ⟨hground₃, hframe₁.trans (hframe₂.trans hframe₃), hregisters₃⟩

/-- What a reduction that succeeds leaves behind is reduced. -/
theorem isReduced_of_reduce (hown : p.isDerived = false) {conflicts : List String}
    (h : (Workpiece.reduce s ⟨p, conflicts⟩).toExcept = .ok w) :
    w.peripheral.IsReduced s ∧ SameFrame p w.peripheral := by
  obtain ⟨w₁, w₂, w₃, w₄, w₅, w₆, h₁, h₂, h₃, h₄, h₅, h₆, rfl⟩ := (reduce_ok_iff hown).1 h
  obtain ⟨hground₃, hframe₃, -⟩ := isGrounded_ok hown (sortAll_sortAll p.registers) h₁ h₂ h₃
  have hframe₃ : SameFrame p w₃.peripheral := hframe₃
  obtain ⟨hground₄, hframe₄, -, hnone₄⟩ := extractPrefix_ok hground₃ h₄
  obtain ⟨hground₅, hframe₅, -, hnone₅, -⟩ := foldRegisters_ok hground₄ h₅
  obtain ⟨hground₆, hframe₆, -, hnone₆, hshared₆, -⟩ := shareEnumerations_ok hground₅ h₆
  show IsReduced s w₆.peripheral.sort ∧ SameFrame p w₆.peripheral.sort
  rw [sort_eq hground₆.sorted]
  refine ⟨⟨hground₆, fun hs => hnone₆ (hnone₅ (hnone₄ hs)), fun hs => ?_⟩,
    hframe₃.trans (hframe₄.trans (hframe₅.trans hframe₆))⟩
  rw [hshared₆ hs, shareEnumerations_shareEnumerations]

/-! ## Peripherals that are stable -/

/-- Without rules for clusters there is nothing to group. -/
theorem isGrouped_of_rulesOf (h : Clusters.rulesOf p.name = []) : p.IsGrouped := by
  intro rule hrule
  rw [h] at hrule
  exact absurd hrule List.not_mem_nil

/-- Arrays stay at rest when the names lose a common part, if the settings stabilize the peripheral
that they were folded in. -/
theorem rests_of_extractPrefix (hw : Site.Rests ⟨w.peripheral.name, s.comparison⟩
      w.peripheral.registers)
    (hnames : s.extractPrefix = true → w.peripheral.prependToName.any (!·.isEmpty) = true ∨
      isUsual w.peripheral.name = true ∧ ∀ n ∈ w.peripheral.elementNames, '\n' ∉ n)
    (h : (stepIf s.extractPrefix extractPrefix w).toExcept = .ok w') :
    Site.Rests ⟨w'.peripheral.name, s.comparison⟩ w'.peripheral.registers := by
  rcases extractPrefix_cases h with ⟨hq, -⟩ | ⟨hs, hnone, description, hq⟩
  · rw [hq]
    exact hw
  · obtain ⟨husual, hline⟩ := (hnames hs).resolve_left fun hnames => hnone (.inl hnames)
    have hremovable : CommonPrefix.isRemovable (CommonPrefix.ofNames w.peripheral.elementNames)
        w.peripheral.elementNames = true := by
      by_contra hnot
      exact hnone (.inr (Bool.eq_false_iff.2 hnot))
    rw [hq]
    exact rests_takePrefix husual hremovable hline hw

/-- What the settings stabilize is stable by a reduction that succeeds. -/
theorem isStable_of_stabilizes (hown : p.isDerived = false) (hp : s.Stabilizes p)
    {conflicts : List String} (h : (Workpiece.reduce s ⟨p, conflicts⟩).toExcept = .ok w) :
    w.peripheral.IsStable s := by
  obtain ⟨hreduced, hframe⟩ := isReduced_of_reduce hown h
  obtain ⟨w₁, w₂, w₃, w₄, w₅, w₆, h₁, h₂, h₃, h₄, h₅, h₆, rfl⟩ := (reduce_ok_iff hown).1 h
  obtain ⟨hframe₁, hprepend₁, hsorted₁, hfolded₁, -⟩ :=
    foldArrays_ok (w := ⟨p.sort, conflicts⟩) hown (sortAll_sortAll p.registers) h₁
  have hown₁ : w₁.peripheral.isDerived = false := hframe₁.isDerived_eq.trans hown
  have hgrouped : stepIf s.groupClusters (·.step groupClusters) w₁ = .pure w₁ := by
    refine stepIf_eq_pure fun hs => step_eq_pure ?_
    have hrules : Clusters.rulesOf w₁.peripheral.name = [] := by
      rw [hframe₁.name_eq]
      exact hp.groups hs
    exact groupClusters_of_isGrouped hsorted₁ (absurd hrules) (isGrouped_of_rulesOf hrules)
  obtain rfl := (eq_of_pure hgrouped h₂).symm
  have hintact₁ : s.foldArrays = true ∨
      s.groupClusters = true ∧ Clusters.rulesOf w₁.peripheral.name ≠ [] →
        isIntactAll w₁.peripheral.registers = true := by
    rintro (hs | ⟨hs, hrules⟩)
    · exact (hfolded₁ hs).1.intact
    · rw [hframe₁.name_eq] at hrules
      exact absurd (hp.groups hs) hrules
  obtain ⟨hground₃, hframe₃, hprepend₃, hregisters₃⟩ :=
    createAddressBlocks_step hown₁ hsorted₁ hintact₁ h₃
  obtain ⟨hground₄, -⟩ := extractPrefix_ok hground₃ h₄
  obtain ⟨hground₅, hframe₅, -, -, hasked₅, hkept₅⟩ := foldRegisters_ok hground₄ h₅
  obtain ⟨hground₆, -, -, -, -, hkept₆⟩ := shareEnumerations_ok hground₅ h₆
  rw [show w₆.peripheral.sort = w₆.peripheral from sort_eq hground₆.sorted] at hframe ⊢
  refine ⟨fun hs => ?_, fun hs => isGrouped_of_rulesOf ?_, fun hs => ?_⟩
  · -- arrays stay at rest through the passes behind their folding
    have hshare : s.shareEnumerations = false :=
      Bool.eq_false_iff.2 fun hshare => Bool.eq_false_iff.1 (hp.enumerations hshare).1 hs
    obtain ⟨hrests₁, hstate₁⟩ := hfolded₁ hs
    have hrests₃ : Site.Rests ⟨w₃.peripheral.name, s.comparison⟩ w₃.peripheral.registers := by
      rw [hregisters₃, hframe₃.name_eq]
      exact hrests₁
    have hrests₄ := rests_of_extractPrefix hrests₃ (fun hprefix => ?_) h₄
    · rw [hkept₆ hshare]
      cases hregisters : s.foldRegisters with
      | false =>
        rw [hkept₅ hregisters]
        exact hrests₄
      | true =>
        rw [hframe₅.name_eq, hasked₅ hregisters]
        exact rests_foldElements hrests₄ s.comparison
    · rw [hprepend₃, hprepend₁, hframe₃.name_eq, hframe₁.name_eq]
      refine (hp.names hs hprefix).imp_right fun ⟨husual, hline⟩ => ⟨husual, ?_⟩
      have hline₁ : w₁.peripheral.HasLineNames := by
        rw [hstate₁]
        exact hline.sort.foldArrays husual
      have hnames : w₃.peripheral.elementNames = w₁.peripheral.elementNames := by
        unfold elementNames
        rw [hregisters₃]
      rw [hnames]
      exact hline₁.elementNames
  · rw [hframe.name_eq]
    exact hp.groups hs
  · have hshare : s.shareEnumerations = false :=
      Bool.eq_false_iff.2 fun hshare => Bool.eq_false_iff.1 (hp.enumerations hshare).2 hs
    rw [hkept₆ hshare, hasked₅ hs]
    exact foldRegisters_foldRegisters _ _

/-! ## Nothing but stable peripherals stays as it is -/

section Unchanged

variable {cmp : Comparison} {f : Register → Register}

theorem foldElement_of_mapRegisters (hf : ∀ r, (f r).derivedFrom = r.derivedFrom)
    {earlier : List Element} {e : Element} (h : (foldElement cmp earlier e).mapRegisters f = e) :
    foldElement cmp earlier e = e := by
  cases e with
  | cluster c es => rfl
  | register r =>
    by_cases hown : hasOwnFields r = true
    · cases hfind : describing? cmp earlier r with
      | none => simp only [foldElement, hown, if_true, hfind]
      | some source =>
        simp only [foldElement, hown, if_true, hfind, mapRegisters, Element.register.injEq] at h
        have hderived : r.derivedFrom = some source.name := by rw [← h, hf]
        rw [hasOwnFields, hderived] at hown
        cases hown
    · simp only [foldElement, hown, Bool.false_eq_true, if_false]

/-- Elements that are as they were after fields were changed have not been derived before. -/
theorem foldElements_of_mapRegistersAll (hf : ∀ r, (f r).derivedFrom = r.derivedFrom)
    {earlier es : List Element} (h : mapRegistersAll f (foldElements cmp earlier es) = es) :
    foldElements cmp earlier es = es := by
  induction es generalizing earlier with
  | nil => rfl
  | cons e es ih =>
    obtain ⟨he, hes⟩ := List.cons.inj h
    simp only [foldElements, foldElement_of_mapRegisters hf he] at hes ⊢
    rw [ih hes]

end Unchanged

theorem countAll_of_foldArrays (hp : p.IsGrounded s) {conflicts : List String}
    (h : (stepIf s.foldArrays (·.step (·.foldArrays s.comparison)) ⟨p, conflicts⟩).toExcept =
      .ok w) :
    countAll w.peripheral.registers ≤ countAll p.registers ∧
      (countAll p.registers ≤ countAll w.peripheral.registers → s.foldArrays = true →
        Site.Rests ⟨p.name, s.comparison⟩ p.registers) := by
  rcases stepIf_ok h with ⟨hs, h⟩ | ⟨hs, rfl⟩
  · obtain ⟨hdone, hstate⟩ := Outcome.toExcept_eq_ok_iff.1 (step_ok h)
    obtain ⟨hle, hrests⟩ := countAll_foldArrays hp.own hdone
    rw [hstate] at hle hrests
    exact ⟨hle, fun hsame _ => hrests hp.sorted (hp.intact (.inl hs)) hsame⟩
  · exact ⟨Nat.le_refl _, fun _ hs' => absurd hs' (Bool.eq_false_iff.1 hs)⟩

theorem countAll_of_groupClusters (hown : w.peripheral.isDerived = false)
    (hsorted : sortAll w.peripheral.registers = w.peripheral.registers)
    (hintact : s.groupClusters = true → Clusters.rulesOf w.peripheral.name ≠ [] →
      isIntactAll w.peripheral.registers = true)
    (h : (stepIf s.groupClusters (·.step groupClusters) w).toExcept = .ok w') :
    countAll w'.peripheral.registers ≤ countAll w.peripheral.registers ∧
      (countAll w.peripheral.registers ≤ countAll w'.peripheral.registers →
        s.groupClusters = true → w.peripheral.IsGrouped) := by
  rcases stepIf_ok h with ⟨hs, h⟩ | ⟨hs, rfl⟩
  · obtain ⟨hle, hgrouped⟩ := countAll_groupClusters hown hsorted (hintact hs)
    rw [(Outcome.toExcept_eq_ok_iff.1 (step_ok h)).2] at hle hgrouped
    exact ⟨hle, fun hsame _ => hgrouped hsame⟩
  · exact ⟨Nat.le_refl _, fun _ hs' => absurd hs' (Bool.eq_false_iff.1 hs)⟩

/-- A reduced peripheral that stays as it is when it is reduced once more is stable. -/
theorem isStable_of_reduce (hp : p.IsReduced s) {conflicts : List String}
    (h : (Workpiece.reduce s ⟨p, conflicts⟩).toExcept = .ok w) (hw : w.peripheral = p) :
    p.IsStable s := by
  obtain ⟨w₁, w₂, w₃, w₄, w₅, w₆, h₁, h₂, h₃, h₄, h₅, h₆, rfl⟩ :=
    (reduce_ok_iff hp.own).1 h
  rw [sort_eq hp.sorted] at h₁
  -- no pass leaves more registers
  obtain ⟨hle₁, hrests⟩ := countAll_of_foldArrays hp.toIsGrounded h₁
  obtain ⟨hframe₁, -, hsorted₁, hfolded₁, hkept₁⟩ := foldArrays_ok hp.own hp.sorted h₁
  have hown₁ : w₁.peripheral.isDerived = false := hframe₁.isDerived_eq.trans hp.own
  have hintact₁ : s.groupClusters = true → Clusters.rulesOf w₁.peripheral.name ≠ [] →
      isIntactAll w₁.peripheral.registers = true := by
    intro hs hrules
    cases hasked : s.foldArrays with
    | true => exact (hfolded₁ hasked).1.intact
    | false =>
      rw [hkept₁ hasked] at hrules ⊢
      exact hp.intact (.inr ⟨hs, hrules⟩)
  obtain ⟨hle₂, hgrouped⟩ := countAll_of_groupClusters hown₁ hsorted₁ hintact₁ h₂
  obtain ⟨hground₃, -, hregisters₃⟩ := isGrounded_ok hp.own hp.sorted h₁ h₂ h₃
  obtain ⟨hground₄, -, hblocks₄, -⟩ := extractPrefix_ok hground₃ h₄
  obtain ⟨hground₅, -, hblocks₅, -, hasked₅, hkept₅⟩ := foldRegisters_ok hground₄ h₅
  obtain ⟨hground₆, -, hblocks₆, -, hasked₆, hkept₆⟩ := shareEnumerations_ok hground₅ h₆
  obtain rfl : w₆.peripheral = p := (sort_eq hground₆.sorted).symm.trans hw
  have hcount : countAll w₆.peripheral.registers = countAll w₂.peripheral.registers := by
    rw [hblocks₆.countAll_eq, hblocks₅.countAll_eq, hblocks₄.countAll_eq, hregisters₃]
  -- so each left as many, and found nothing
  have harrays := hrests (by omega)
  obtain rfl := eq_of_pure (stepIf_foldArrays hp.own harrays conflicts) h₁
  have hgroups := hgrouped (by omega)
  obtain rfl := eq_of_pure (stepIf_groupClusters hp.toIsGrounded hgroups conflicts) h₂
  obtain rfl := eq_of_pure (stepIf_createAddressBlocks hp.toIsGrounded conflicts) h₃
  obtain rfl := eq_of_pure (stepIf_extractPrefix hp conflicts) h₄
  refine ⟨harrays, hgroups, fun hs => ?_⟩
  cases hshare : s.shareEnumerations with
  | false =>
    have hp₅ := hasked₅ hs
    rw [← hkept₆ hshare] at hp₅
    exact hp₅.symm
  | true =>
    have hp₆ := hasked₆ hshare
    rw [hasked₅ hs] at hp₆
    have hregisters := foldElements_of_mapRegistersAll (f := Register.extractSimilarFields)
      (fun _ => rfl) (congrArg Peripheral.registers hp₆).symm
    unfold foldRegisters
    rw [hregisters]

end Peripheral

end RegisterMap
