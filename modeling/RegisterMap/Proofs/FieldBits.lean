import Mathlib.Data.Nat.Bitwise
import RegisterMap.Register

/-!
# Bits of fields

The check on the fields of a register runs over them with a word of the bits that are taken. It
accepts exactly the fields that are not empty, lie in the register and in a word, and are apart from
each other, those that may overlap left out (`Register.checkFieldBits_eq_ok_iff`).
-/

namespace RegisterMap

theorem Bits.testBit_runMask {offset width : Nat} (h : offset + width ≤ 64) (i : Nat) :
    (runMask offset width).testBit i = decide (offset ≤ i ∧ i < offset + width) := by
  unfold runMask
  split
  · rename_i hoffset
    have hlow : lowMask width = 2 ^ width - 1 := by
      rw [lowMask, limit_eq, Nat.min_eq_left (by omega)]
      rfl
    rw [hlow, limit_eq, limit_eq]
    show ((2 ^ width - 1) * 2 ^ offset % 2 ^ 64).testBit i = _
    rw [Nat.testBit_mod_two_pow, Nat.testBit_mul_two_pow, Nat.testBit_two_pow_sub_one]
    rw [Bool.eq_iff_iff]
    simp only [Bool.and_eq_true, decide_eq_true_eq]
    omega
  · have hempty : ¬(offset ≤ i ∧ i < offset + width) := by omega
    rw [Nat.zero_testBit, decide_eq_false hempty]

namespace Field

/-- No bit is in both fields. -/
def Apart (f g : Field) : Prop := f.bitEnd ≤ g.bitOffset ∨ g.bitEnd ≤ f.bitOffset

variable {f g : Field}

theorem testBit_mask (h : f.bitEnd ≤ 64) (i : Nat) :
    f.mask.testBit i = decide (f.bitOffset ≤ i ∧ i < f.bitEnd) := Bits.testBit_runMask h i

theorem mask_and_mask_eq_zero_iff (hf : 0 < f.bitWidth) (hg : 0 < g.bitWidth)
    (hf' : f.bitEnd ≤ 64) (hg' : g.bitEnd ≤ 64) : f.mask &&& g.mask = 0 ↔ f.Apart g := by
  have hbit (i : Nat) : (f.mask &&& g.mask).testBit i =
      decide ((f.bitOffset ≤ i ∧ i < f.bitEnd) ∧ g.bitOffset ≤ i ∧ i < g.bitEnd) := by
    rw [Nat.testBit_and, testBit_mask hf', testBit_mask hg']
    simp only [Bool.decide_and, Bool.and_assoc]
  unfold Apart
  constructor
  · intro h
    -- the later of the two first bits is in both fields, unless they are apart
    have hshared := hbit (max f.bitOffset g.bitOffset)
    rw [h, Nat.zero_testBit, eq_comm, decide_eq_false_iff_not] at hshared
    simp only [bitEnd] at hshared ⊢
    omega
  · intro h
    apply Nat.eq_of_testBit_eq
    intro i
    rw [hbit, Nat.zero_testBit, decide_eq_false_iff_not]
    omega

end Field

namespace Register

variable {r : Register}

theorem excludes_eq_false_iff {f : Field} :
    r.excludes f = false ↔ 0 < f.bitWidth ∧ f.bitEnd ≤ r.width ∧ f.bitEnd ≤ 64 := by
  simp only [excludes, Bool.or_eq_false_iff, beq_eq_false_iff_ne, decide_eq_false_iff_not]
  omega

/-- The fields that need bits of their own. -/
def exclusive (fs : List Field) : List Field := fs.filter (!·.ignoreOverlap)

theorem checkBits_eq_ok_iff {used : Nat} {fs : List Field} : r.checkBits used fs = .ok () ↔
    (∀ f ∈ fs, r.excludes f = false) ∧ (∀ f ∈ exclusive fs, used &&& f.mask = 0) ∧
      (exclusive fs).Pairwise fun f g => f.mask &&& g.mask = 0 := by
  induction fs generalizing used with
  | nil => simp [checkBits, exclusive]
  | cons f fs ih =>
    rw [checkBits, List.forall_mem_cons]
    cases hexcludes : r.excludes f with
    | true => simp [fail]
    | false =>
      cases hignored : f.ignoreOverlap with
      | true =>
        have hleft : exclusive (f :: fs) = exclusive fs := by simp [exclusive, hignored]
        simp only [hleft, Bool.false_eq_true, if_false, if_true, true_and]
        exact ih
      | false =>
        have hkept : exclusive (f :: fs) = f :: exclusive fs := by simp [exclusive, hignored]
        rw [hkept, List.forall_mem_cons, List.pairwise_cons]
        by_cases htaken : used &&& f.mask = 0
        · have hmore (g : Field) :
              (used ||| f.mask) &&& g.mask = 0 ↔ used &&& g.mask = 0 ∧ f.mask &&& g.mask = 0 := by
            rw [Nat.and_or_distrib_right, Nat.or_eq_zero_iff]
          simp only [htaken, Bool.false_eq_true, if_false, bne_self_eq_false, true_and, ih, hmore]
          constructor
          · rintro ⟨hinside, hfree, hpairs⟩
            exact ⟨hinside, fun g hg => (hfree g hg).1, fun g hg => (hfree g hg).2, hpairs⟩
          · rintro ⟨hinside, hused, hf, hpairs⟩
            exact ⟨hinside, fun g hg => ⟨hused g hg, hf g hg⟩, hpairs⟩
        · simp [htaken, fail]

/-- **The check on fields** accepts those that are not empty, lie in the register and in a word, and
are apart from each other unless they may overlap. -/
theorem checkFieldBits_eq_ok_iff : r.checkFieldBits = .ok () ↔
    (∀ f ∈ r.fields, 0 < f.bitWidth ∧ f.bitEnd ≤ r.width ∧ f.bitEnd ≤ 64) ∧
      (exclusive r.fields).Pairwise Field.Apart := by
  have hempty (f : Field) : 0 &&& f.mask = 0 := Nat.zero_and _
  simp only [checkFieldBits, checkBits_eq_ok_iff, excludes_eq_false_iff, hempty, implies_true,
    true_and]
  refine and_congr_right fun hinside => List.Pairwise.iff_of_mem fun hf hg => ?_
  have hf := hinside _ (List.mem_filter.1 hf).1
  have hg := hinside _ (List.mem_filter.1 hg).1
  exact Field.mask_and_mask_eq_zero_iff hf.1 hg.1 hf.2.2 hg.2.2

end Register

end RegisterMap
