import RegisterMap.Proofs.Element
import RegisterMap.Proofs.FieldBits

/-!
# Fields at fault

The check on the fields of a register accepts exactly those that each have bits of their own in it,
in whatever order they come, and names the first field at fault otherwise
(`Register.checkFieldBits_verdict`). The word with the bits that are taken stands for the fields
that the check has passed (`IsTakenBy`); a step either ends at a fault or goes on with one more
field passed (`Register.checkBits_cons`).
-/

namespace RegisterMap

namespace Field

/-- The bit is one of the field. -/
def Takes (f : Field) (i : Nat) : Prop := f.bitOffset ≤ i ∧ i < f.bitOffset + f.bitWidth

instance (f : Field) (i : Nat) : Decidable (f.Takes i) := inferInstanceAs (Decidable (_ ∧ _))

/-- Both fields need bits of their own, and some bit is in both. -/
def Clashes (f g : Field) : Prop :=
  f.ignoreOverlap = false ∧ g.ignoreOverlap = false ∧ ∃ i, f.Takes i ∧ g.Takes i

variable {f g : Field}

theorem Clashes.symm (h : f.Clashes g) : g.Clashes f :=
  ⟨h.2.1, h.1, h.2.2.imp fun _ => And.symm⟩

theorem apart_iff (hf : 0 < f.bitWidth) (hg : 0 < g.bitWidth) :
    f.Apart g ↔ ¬∃ i, f.Takes i ∧ g.Takes i := by
  unfold Apart bitEnd Takes
  constructor
  · rintro h ⟨i, hfi, hgi⟩
    omega
  · intro h
    -- the later of the two first bits is in both fields, unless they are apart
    by_contra hapart
    exact h ⟨max f.bitOffset g.bitOffset, by omega⟩

theorem testBit_mask_eq_true_iff {i : Nat} (hend : f.bitEnd ≤ 64) :
    f.mask.testBit i = true ↔ f.Takes i := by
  rw [testBit_mask hend, decide_eq_true_iff]
  exact Iff.rfl

end Field

/-! ## The bits that are taken -/

/-- The word has the bits of the fields that need bits of their own. -/
def IsTakenBy (used : Nat) (before : List Field) : Prop :=
  ∀ i, used.testBit i = true ↔ ∃ g ∈ before, g.ignoreOverlap = false ∧ g.Takes i

namespace IsTakenBy

variable {used : Nat} {before : List Field} {f : Field}

theorem zero : IsTakenBy 0 [] := by simp [IsTakenBy]

theorem concat_ignored (h : IsTakenBy used before) (hf : f.ignoreOverlap = true) :
    IsTakenBy used (before ++ [f]) := by
  intro i
  simp [h i, or_and_right, exists_or, hf]

theorem concat_mask (h : IsTakenBy used before) (hf : f.ignoreOverlap = false)
    (hend : f.bitEnd ≤ 64) : IsTakenBy (used ||| f.mask) (before ++ [f]) := by
  intro i
  rw [Nat.testBit_or, Bool.or_eq_true, h i, Field.testBit_mask_eq_true_iff hend]
  simp [or_and_right, exists_or, hf]

theorem and_mask_ne_zero_iff (h : IsTakenBy used before) (hf : f.ignoreOverlap = false)
    (hend : f.bitEnd ≤ 64) : used &&& f.mask ≠ 0 ↔ ∃ g ∈ before, f.Clashes g := by
  have hbit (i : Nat) : (used &&& f.mask).testBit i = true ↔
      (∃ g ∈ before, g.ignoreOverlap = false ∧ g.Takes i) ∧ f.Takes i := by
    rw [Nat.testBit_and, Bool.and_eq_true, h i, Field.testBit_mask_eq_true_iff hend]
  constructor
  · intro hne
    obtain ⟨i, hi⟩ := Nat.exists_testBit_of_ne_zero hne
    obtain ⟨⟨g, hg, hown, hgi⟩, hfi⟩ := (hbit i).1 hi
    exact ⟨g, hg, hf, hown, i, hfi, hgi⟩
  · rintro ⟨g, hg, -, hown, i, hfi, hgi⟩ hzero
    have hi := (hbit i).2 ⟨⟨g, hg, hown, hgi⟩, hfi⟩
    rw [hzero, Nat.zero_testBit] at hi
    cases hi

end IsTakenBy

namespace Register

variable {r : Register} {used i : Nat} {before fs : List Field} {f g : Field} {c c' : Cause}

/-! ## Faults -/

/-- The field is empty, or reaches past the register or past a word. -/
def Misplaces (r : Register) (f : Field) : Prop :=
  f.bitWidth = 0 ∨ min r.width 64 < f.bitOffset + f.bitWidth

instance : Decidable (r.Misplaces f) := inferInstanceAs (Decidable (_ ∨ _))

/-- What the check says of a field behind others, if it is at fault. -/
inductive Fault (r : Register) (before : List Field) (f : Field) : Cause → Prop
  | outside (misplaced : r.Misplaces f) : Fault r before f (.fieldOutsideRegister f.name r.name)
  | overlapping (placed : ¬r.Misplaces f) (clash : ∃ g ∈ before, f.Clashes g) :
      Fault r before f (.overlappingFields f.name r.name)

/-- Of fields behind others, the one at the position is at fault, and none in front of it is. -/
structure FirstFault (r : Register) (before fs : List Field) (i : Nat) (f : Field) (c : Cause) :
    Prop where
  found : fs[i]? = some f
  fault : r.Fault (before ++ fs.take i) f c
  first : ∀ j < i, ∀ g, fs[j]? = some g → ∀ c', ¬r.Fault (before ++ fs.take j) g c'

theorem excludes_eq_true_iff : r.excludes f = true ↔ r.Misplaces f := by
  rw [excludes, Bool.or_eq_true, beq_iff_eq, decide_eq_true_iff]
  exact Iff.rfl

theorem bitEnd_le_of_not_misplaces (h : ¬r.Misplaces f) : f.bitEnd ≤ 64 := by
  unfold Misplaces at h
  unfold Field.bitEnd
  omega

theorem Fault.unique (h : r.Fault before f c) (h' : r.Fault before f c') : c = c' := by
  cases h with
  | outside misplaced =>
    cases h' with
    | outside => rfl
    | overlapping placed => exact absurd misplaced placed
  | overlapping placed =>
    cases h' with
    | outside misplaced => exact absurd misplaced placed
    | overlapping => rfl

theorem firstFault_zero_iff : r.FirstFault before (f :: fs) 0 g c ↔ f = g ∧ r.Fault before f c := by
  constructor
  · rintro ⟨hfound, hfault, -⟩
    rw [List.take_zero, List.append_nil] at hfault
    cases hfound
    exact ⟨rfl, hfault⟩
  · rintro ⟨rfl, hfault⟩
    refine ⟨rfl, ?_, fun j hj => absurd hj (Nat.not_lt_zero j)⟩
    rwa [List.take_zero, List.append_nil]

/-- Behind a field that is not at fault the check goes on with one more in front. -/
theorem firstFault_succ_iff (hf : ∀ c, ¬r.Fault before f c) :
    r.FirstFault before (f :: fs) (i + 1) g c ↔ r.FirstFault (before ++ [f]) fs i g c := by
  have htake (j : Nat) : before ++ (f :: fs).take (j + 1) = before ++ [f] ++ fs.take j := by
    rw [List.take_succ_cons, List.append_assoc, List.singleton_append]
  constructor
  · rintro ⟨hfound, hfault, hfirst⟩
    refine ⟨hfound, htake i ▸ hfault, fun j hj g' hg' => ?_⟩
    rw [← htake j]
    exact hfirst (j + 1) (Nat.succ_lt_succ hj) g' hg'
  · rintro ⟨hfound, hfault, hfirst⟩
    refine ⟨hfound, htake i ▸ hfault, fun j hj g' hg' => ?_⟩
    cases j with
    | zero =>
      cases hg'
      rw [List.take_zero, List.append_nil]
      exact hf
    | succ j =>
      rw [htake j]
      exact hfirst j (Nat.lt_of_succ_lt_succ hj) g' hg'

/-! ## The check -/

/-- The check ends at a field that is at fault, and passes any other. -/
theorem checkBits_cons (h : IsTakenBy used before) (f : Field) (fs : List Field) :
    (∃ c, r.Fault before f c ∧ r.checkBits used (f :: fs) = fail c) ∨
      (∀ c, ¬r.Fault before f c) ∧
        ∃ used', IsTakenBy used' (before ++ [f]) ∧
          r.checkBits used (f :: fs) = r.checkBits used' fs := by
  rw [checkBits]
  by_cases hplaced : r.Misplaces f
  · rw [if_pos (excludes_eq_true_iff.2 hplaced)]
    exact .inl ⟨_, .outside hplaced, rfl⟩
  · rw [if_neg (mt excludes_eq_true_iff.1 hplaced)]
    have hend := bitEnd_le_of_not_misplaces hplaced
    have hfaultless (hfree : ¬∃ g ∈ before, f.Clashes g) : ∀ c, ¬r.Fault before f c := by
      rintro c (hmisplaced | ⟨-, hclash⟩)
      · exact hplaced hmisplaced
      · exact hfree hclash
    cases hignored : f.ignoreOverlap with
    | true =>
      refine .inr ⟨hfaultless ?_, used, h.concat_ignored hignored, if_pos rfl⟩
      rintro ⟨g, -, hown, -⟩
      rw [hignored] at hown
      cases hown
    | false =>
      have hclash := h.and_mask_ne_zero_iff hignored hend
      rw [if_neg Bool.false_ne_true]
      by_cases hfree : used &&& f.mask = 0
      · refine .inr ⟨hfaultless fun hg => hclash.2 hg hfree, _, h.concat_mask hignored hend, ?_⟩
        simp [hfree]
      · refine .inl ⟨_, .overlapping hplaced (hclash.1 hfree), ?_⟩
        simp [hfree]

theorem checkBits_eq_error_iff (h : IsTakenBy used before) {e : Failure} :
    r.checkBits used fs = .error e ↔
      ∃ i f c, r.FirstFault before fs i f c ∧ e = ⟨[], c⟩ := by
  induction fs generalizing used before with
  | nil =>
    constructor
    · exact nofun
    · rintro ⟨i, f, c, ⟨hfound, -, -⟩, -⟩
      cases hfound
  | cons f fs ih =>
    rcases checkBits_cons (r := r) h f fs with ⟨c, hfault, hstop⟩ | ⟨hpassed, used', hused, hgo⟩
    · rw [hstop]
      constructor
      · intro he
        cases he
        exact ⟨0, f, c, firstFault_zero_iff.2 ⟨rfl, hfault⟩, rfl⟩
      · rintro ⟨i, g, c', hfirst, rfl⟩
        cases i with
        | zero =>
          rw [hfault.unique (firstFault_zero_iff.1 hfirst).2]
          rfl
        | succ i =>
          refine absurd ?_ (hfirst.first 0 (Nat.succ_pos i) f rfl c)
          rwa [List.take_zero, List.append_nil]
    · rw [hgo, ih hused]
      constructor
      · rintro ⟨i, g, c, hfirst, rfl⟩
        exact ⟨i + 1, g, c, (firstFault_succ_iff hpassed).2 hfirst, rfl⟩
      · rintro ⟨i, g, c, hfirst, rfl⟩
        cases i with
        | zero => exact absurd (firstFault_zero_iff.1 hfirst).2 (hpassed c)
        | succ i => exact ⟨i, g, c, (firstFault_succ_iff hpassed).1 hfirst, rfl⟩

/-- Every field lies in the register, and no two of them clash. -/
structure IsLegal (r : Register) (fs : List Field) : Prop where
  placed : ∀ f ∈ fs, 1 ≤ f.bitWidth ∧ f.bitOffset + f.bitWidth ≤ min r.width 64
  apart : fs.Pairwise fun f g => ¬f.Clashes g

theorem IsLegal.perm {gs : List Field} (h : r.IsLegal fs) (hperm : fs.Perm gs) : r.IsLegal gs where
  placed f hf := h.placed f (hperm.mem_iff.2 hf)
  apart := (hperm.pairwise_iff fun hclash => mt Field.Clashes.symm hclash).1 h.apart

theorem checkFieldBits_eq_ok_iff_isLegal : r.checkFieldBits = .ok () ↔ r.IsLegal r.fields := by
  rw [checkFieldBits_eq_ok_iff, exclusive, List.pairwise_filter]
  have hplaced : (∀ f ∈ r.fields, 0 < f.bitWidth ∧ f.bitEnd ≤ r.width ∧ f.bitEnd ≤ 64) ↔
      ∀ f ∈ r.fields, 1 ≤ f.bitWidth ∧ f.bitOffset + f.bitWidth ≤ min r.width 64 :=
    forall₂_congr fun f _ => and_congr_right' Nat.le_min.symm
  rw [hplaced]
  refine Iff.trans (and_congr_right fun h => ?_) ⟨fun h => ⟨h.1, h.2⟩, fun h => ⟨h.placed, h.apart⟩⟩
  refine List.Pairwise.iff_of_mem fun {f g} hf hg => ?_
  rw [Field.apart_iff (h f hf).1 (h g hg).1]
  simp [Field.Clashes]

/-- **The check on fields** accepts them exactly if every field has a bit or more, all of them
within the register and within a word, and no two that need bits of their own share one; their order
does not matter. Otherwise the failure tells of the first field in the list that is empty or reaches
outside, or that overlaps an earlier one. -/
theorem checkFieldBits_verdict (r : Register) :
    (r.checkFieldBits = .ok () ↔
      (∀ f ∈ r.fields, 1 ≤ f.bitWidth ∧ f.bitOffset + f.bitWidth ≤ min r.width 64) ∧
        r.fields.Pairwise fun f g => ¬f.Clashes g) ∧
    (∀ fs, r.fields.Perm fs →
      ({ r with fields := fs }.checkFieldBits = .ok () ↔ r.checkFieldBits = .ok ())) ∧
    ∀ e, r.checkFieldBits = .error e ↔ ∃ i f c, r.FirstFault [] r.fields i f c ∧ e = ⟨[], c⟩ := by
  refine ⟨?_, fun fs hperm => ?_, fun e => checkBits_eq_error_iff .zero⟩
  · exact checkFieldBits_eq_ok_iff_isLegal.trans
      ⟨fun h => ⟨h.placed, h.apart⟩, fun h => ⟨h.1, h.2⟩⟩
  · rw [checkFieldBits_eq_ok_iff_isLegal, checkFieldBits_eq_ok_iff_isLegal]
    have hlegal {gs : List Field} :
        ({ r with fields := fs } : Register).IsLegal gs ↔ r.IsLegal gs :=
      ⟨fun h => ⟨h.placed, h.apart⟩, fun h => ⟨h.placed, h.apart⟩⟩
    exact hlegal.trans ⟨fun h => h.perm hperm.symm, fun h => h.perm hperm⟩

section Example

private def mode : Field := { name := "MODE", bitOffset := 0, bitWidth := 8 }

/-- The last bit of a word. -/
private def enable : Field := { name := "EN", bitOffset := 63, bitWidth := 1 }

/-- All bits of a word, for whoever wants to see them at once. -/
private def whole : Field :=
  { name := "ALL", bitOffset := 0, bitWidth := 64, ignoreOverlap := true }

/-- Shares a bit with the mode. -/
private def level : Field := { name := "LEVEL", bitOffset := 7, bitWidth := 2 }

private def beyond : Field := { name := "BEYOND", bitOffset := 4294967295, bitWidth := 1 }

private def control (fields : List Field) : Register := { Register.plain "CTRL" 0 64 with fields }

/-- Neither of the first two fields is at fault, though every bit of the second is in the first. -/
private theorem firstFault_level : (control [whole, mode, level, beyond]).FirstFault []
    [whole, mode, level, beyond] 2 level (.overlappingFields "LEVEL" "CTRL") where
  found := rfl
  fault := .overlapping (by decide)
    ⟨mode, List.mem_cons_of_mem _ List.mem_cons_self, rfl, rfl, 7, by decide, by decide⟩
  first j hj g hg c h := by
    have hplaced : ∀ f ∈ [whole, mode], ¬(control [whole, mode, level, beyond]).Misplaces f := by
      decide
    obtain rfl | rfl : j = 0 ∨ j = 1 := by omega
    · cases hg
      rcases h with hmisplaced | ⟨-, g, hg, -⟩
      · exact hplaced whole List.mem_cons_self hmisplaced
      · cases hg
    · cases hg
      rcases h with hmisplaced | ⟨-, g, hg, -, hown, -⟩
      · exact hplaced mode (List.mem_cons_of_mem _ List.mem_cons_self) hmisplaced
      · cases List.mem_singleton.1 hg
        cases hown

theorem checkFieldBits_verdict_control :
    [enable, mode, whole].Perm [whole, mode, enable] ∧
    (control [whole, mode, enable]).checkFieldBits = .ok () ∧
    (control [whole, mode, level, beyond]).checkFieldBits =
      .error ⟨[], .overlappingFields "LEVEL" "CTRL"⟩ := by
  have hperm : [enable, mode, whole].Perm [whole, mode, enable] := by decide
  have hlegal : (control [enable, mode, whole]).checkFieldBits = .ok () := by decide
  obtain ⟨-, hreordered, -⟩ := checkFieldBits_verdict (control [enable, mode, whole])
  obtain ⟨-, -, hfault⟩ := checkFieldBits_verdict (control [whole, mode, level, beyond])
  exact ⟨hperm, (hreordered _ hperm).2 hlegal, (hfault _).2 ⟨2, level, _, firstFault_level, rfl⟩⟩

end Example

end Register

end RegisterMap
