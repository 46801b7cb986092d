import Mathlib.Algebra.Group.Nat.Defs
import Mathlib.Data.List.Induction
import Mathlib.Data.Nat.Bitwise
import RegisterMap.Enumeration
import RegisterMap.Proofs.Numeral

/-!
# Enumerations as they are spelled

A text with a mark of binary numbers in front selects the values that have its digits, digit by
digit from the right; any other text selects the values that are the number, as far as the field is
wide (`Enumeration.withText_spelled`). Value and mask are made by pushing one bit after another;
what they have at a place is what the digit there says (`BitPattern.testBit_ofBits`).
-/

namespace RegisterMap

/-! ## Bits that are pushed -/

namespace BitPattern

variable {bits : List (Option Bool)} {b : Option Bool} {i v : Nat} {c : Char} {cs : List Char}

/-- The bit at a place counted from the right, none if it is free or there is none. -/
def bitAt (bits : List (Option Bool)) (i : Nat) : Option Bool := bits.reverse[i]?.join

@[simp] theorem bitAt_nil (i : Nat) : bitAt [] i = none := rfl

@[simp] theorem bitAt_concat_zero (bits : List (Option Bool)) (b : Option Bool) :
    bitAt (bits ++ [b]) 0 = b := by
  simp [bitAt]

@[simp] theorem bitAt_concat_succ (bits : List (Option Bool)) (b : Option Bool) (i : Nat) :
    bitAt (bits ++ [b]) (i + 1) = bitAt bits i := by
  simp [bitAt]

/-- A number with one more bit at the right, cut off at a word. -/
theorem testBit_pushed (n : Nat) (p : Prop) [Decidable p] (i : Nat) :
    ((2 * n + if p then 1 else 0) % Bits.limit 64).testBit i =
      (decide (i < 64) && if i = 0 then decide p else n.testBit (i - 1)) := by
  rw [Bits.limit_eq]
  show (_ % 2 ^ 64).testBit i = _
  rw [Nat.testBit_mod_two_pow]
  congr 1
  cases i with
  | zero => by_cases hp : p <;> simp [hp]
  | succ i =>
    rw [Nat.testBit_succ, if_neg (Nat.succ_ne_zero i), Nat.add_sub_cancel]
    congr 1
    split <;> omega

/-- A number that has a one where the bits have a property, with one more bit. -/
theorem testBit_push {P : Option Bool → Prop} [DecidablePred P] {n : Nat}
    (hn : ∀ i, n.testBit i = (decide (i < 64) && decide (P (bitAt bits i)))) (i : Nat) :
    ((2 * n + if P b then 1 else 0) % Bits.limit 64).testBit i =
      (decide (i < 64) && decide (P (bitAt (bits ++ [b]) i))) := by
  rw [testBit_pushed]
  cases i with
  | zero => simp
  | succ i =>
    have hbelow : i + 1 < 64 → i < 64 := Nat.lt_of_succ_lt
    by_cases hi : i + 1 < 64 <;> simp [hi, hn i, hbelow]

/-- The mask has the bits that are not free, and the value those of them that are one. -/
theorem testBit_ofBits (bits : List (Option Bool)) (i : Nat) :
    (ofBits bits).mask.testBit i = (decide (i < 64) && decide ((bitAt bits i).isSome = true)) ∧
      (ofBits bits).value.testBit i = (decide (i < 64) && decide (bitAt bits i = some true)) := by
  induction bits using List.reverseRecOn generalizing i with
  | nil => simp [ofBits]
  | append_singleton bits b ih =>
    rw [ofBits_concat]
    exact ⟨testBit_push (P := (·.isSome = true)) (fun i => (ih i).1) i,
      testBit_push (P := (· = some true)) (fun i => (ih i).2) i⟩

/-- A value has the bits of a pattern where those are not free. -/
theorem and_mask_eq_value_iff : v &&& (ofBits bits).mask = (ofBits bits).value ↔
    ∀ i < 64, ∀ b, bitAt bits i = some b → v.testBit i = b := by
  constructor
  · intro h i hi b hb
    have hbit := congrArg (Nat.testBit · i) h
    obtain ⟨hmask, hvalue⟩ := testBit_ofBits bits i
    simp only [Nat.testBit_and, hmask, hvalue, hi, hb] at hbit
    cases b <;> simpa using hbit
  · intro h
    refine Nat.eq_of_testBit_eq fun i => ?_
    rw [Nat.testBit_and, (testBit_ofBits bits i).1, (testBit_ofBits bits i).2]
    by_cases hi : i < 64
    · cases hb : bitAt bits i with
      | none => simp
      | some b =>
        rw [h i hi b hb]
        cases b <;> simp [hi]
    · simp [hi]

/-! ## Digits -/

/-- The characters that spell a bit. -/
def digitChars : List Char := ['0', '1', 'x', 'X']

/-- The number has the digits, counted from the right, where they are `0` or `1`. -/
def HasDigits (digits : List Char) (v : Nat) : Prop :=
  ∀ i, (digits.reverse[i]? = some '0' → v.testBit i = false) ∧
    (digits.reverse[i]? = some '1' → v.testBit i = true)

theorem bit?_isSome_iff : (bit? c).isSome = true ↔ c ∈ digitChars := by
  unfold bit? digitChars
  split <;> simp_all

theorem bit?_eq_some_some_iff {b : Bool} :
    bit? c = some (some b) ↔ (c = '0' ∧ b = false) ∨ (c = '1' ∧ b = true) := by
  unfold bit?
  split <;> simp_all [eq_comm]

theorem mapM_bit?_eq_some (h : ∀ c ∈ cs, c ∈ digitChars) :
    cs.mapM bit? = some (cs.map fun c => (bit? c).join) := by
  induction cs with
  | nil => rfl
  | cons c cs ih =>
    obtain ⟨hc, hcs⟩ := List.forall_mem_cons.1 h
    obtain ⟨b, hb⟩ := Option.isSome_iff_exists.1 (bit?_isSome_iff.2 hc)
    simp [ih hcs, hb]

theorem mapM_bit?_eq_none (hc : c ∉ digitChars) (h : c ∈ cs) : cs.mapM bit? = none := by
  induction cs with
  | nil => cases h
  | cons d cs ih =>
    rcases List.mem_cons.1 h with rfl | h
    · have hnone : bit? c = none := by
        rwa [← bit?_isSome_iff, Bool.not_eq_true, Option.isSome_eq_false_iff,
          Option.isNone_iff_eq_none] at hc
      simp [hnone]
    · cases hd : bit? d <;> simp [hd, ih h]

/-- With no more digits than a word has bits, none is lost. -/
theorem hasDigits_iff (hlength : cs.length ≤ 64) : HasDigits cs v ↔
    ∀ i < 64, ∀ b, bitAt (cs.map fun c => (bit? c).join) i = some b → v.testBit i = b := by
  have hat (i : Nat) : bitAt (cs.map fun c => (bit? c).join) i =
      (cs.reverse[i]?).bind fun c => (bit? c).join := by
    rw [bitAt, ← List.map_reverse, List.getElem?_map]
    cases cs.reverse[i]? <;> rfl
  have hbit (i : Nat) (b : Bool) : bitAt (cs.map fun c => (bit? c).join) i = some b ↔
      (cs.reverse[i]? = some '0' ∧ b = false) ∨ (cs.reverse[i]? = some '1' ∧ b = true) := by
    rw [hat]
    cases cs.reverse[i]? with
    | none => simp
    | some c => simpa [Option.join_eq_some_iff] using bit?_eq_some_some_iff
  simp only [hbit]
  constructor
  · rintro h i - b (⟨hi, rfl⟩ | ⟨hi, rfl⟩)
    · exact (h i).1 hi
    · exact (h i).2 hi
  · intro h i
    have hlt {c : Char} (hi : cs.reverse[i]? = some c) : i < 64 := by
      obtain ⟨hi, -⟩ := List.getElem?_eq_some_iff.1 hi
      rw [List.length_reverse] at hi
      exact Nat.lt_of_lt_of_le hi hlength
    exact ⟨fun hi => h i (hlt hi) false (.inl ⟨hi, rfl⟩),
      fun hi => h i (hlt hi) true (.inr ⟨hi, rfl⟩)⟩

end BitPattern

/-! ## Marks -/

/-- The marks of binary numbers, after which digits may be free. -/
def patternMarks : List String := ["0b", "0B", "#"]

/-- No mark begins another, so that at most one is found. -/
theorem findSome?_afterMark? {mark : String} (hmark : mark ∈ patternMarks) {s digits : List Char}
    (hs : s = mark.toList ++ digits) :
    (["0b", "0B", "#"].findSome? fun m => Text.afterMark? m.toList s) = some digits := by
  subst hs
  simp only [patternMarks, List.mem_cons, List.not_mem_nil, or_false] at hmark
  rcases hmark with rfl | rfl | rfl <;> rfl

theorem findSome?_afterMark?_eq_none {s : List Char}
    (h : ∀ mark ∈ patternMarks, ¬mark.toList <+: s) :
    (["0b", "0B", "#"].findSome? fun m => Text.afterMark? m.toList s) = none := by
  refine List.findSome?_eq_none_iff.2 fun m hm => ?_
  rw [Text.afterMark?, if_neg]
  exact fun hp => h m hm (List.isPrefixOf_iff_prefix.1 hp)

theorem Bits.and_lowMask {v : Nat} (hv : v < limit 64) (width : Nat) :
    v &&& lowMask width = if width < 64 then v % 2 ^ width else v := by
  rw [lowMask, limit_eq]
  show v &&& (2 ^ min width 64 - 1) = _
  rw [Nat.and_two_pow_sub_one_eq_mod]
  split
  · rw [Nat.min_eq_left (by omega)]
  · rw [limit_eq] at hv
    rw [Nat.min_eq_right (by omega), Nat.mod_eq_of_lt hv]

namespace Enumeration

open BitPattern

variable {e : Enumeration} {text mark : String} {digits : List Char}

/-- Behind a mark, the text is read digit by digit. -/
theorem withText_of_mark {p : BitPattern} (hmark : mark ∈ patternMarks)
    (htext : (Text.trim text).toList = mark.toList ++ digits) (hread : ofDigits? digits = some p)
    (e : Enumeration) (width : Nat) : e.withText text width =
      .ok { e with value := p.value, mask := p.mask, text := some (Text.trim text) } := by
  unfold withText
  simp only [findSome?_afterMark? hmark htext, hread]

theorem withText_eq_error (hmark : mark ∈ patternMarks)
    (htext : (Text.trim text).toList = mark.toList ++ digits) (hread : ofDigits? digits = none)
    (e : Enumeration) (width : Nat) :
    e.withText text width = .error ⟨[], .illegalBitPattern text⟩ := by
  unfold withText
  simp only [findSome?_afterMark? hmark htext, hread]
  rfl

/-- Without a mark, the text is read as a number. -/
theorem withText_of_no_mark (h : ∀ mark ∈ patternMarks, ¬mark.toList <+: (Text.trim text).toList)
    (e : Enumeration) (width : Nat) :
    e.withText text width = (Numeral.number text).map fun n =>
      { e with value := n, mask := Bits.lowMask width, text := some (Text.trim text) } := by
  unfold withText
  simp only [findSome?_afterMark?_eq_none h, Numeral.number_trim]
  cases Numeral.number text <;> rfl

/-- **Patterns mean what they spell.** Behind `0b`, `0B` or `#`, up to 64 digits `0`, `1`, `x` and
`X` with underscores between them are accepted for any width, and select exactly the values whose
bits are the digits `0` and `1`; any other character is refused. A text without a mark is accepted
exactly if it is a number, and then selects exactly the values that are this number, as far as the
field is wide. -/
theorem withText_spelled (e : Enumeration) (text : String) (width : Nat) :
    (∀ mark ∈ patternMarks, ∀ digits, (Text.trim text).toList = mark.toList ++ digits →
      ((∀ c ∈ digits, c = '_' ∨ c ∈ digitChars) → (digits.filter (· != '_')).length ≤ 64 →
        ∃ e', e.withText text width = .ok e' ∧
          ∀ v, e'.selects v = true ↔ HasDigits (digits.filter (· != '_')) v) ∧
      ((∃ c ∈ digits, c ≠ '_' ∧ c ∉ digitChars) →
        e.withText text width = .error ⟨[], .illegalBitPattern text⟩)) ∧
    ((∀ mark ∈ patternMarks, ¬mark.toList <+: (Text.trim text).toList) →
      ((∃ e', e.withText text width = .ok e') ↔ ∃ n, Numeral.number text = .ok n) ∧
      ∀ e' n, e.withText text width = .ok e' → Numeral.number text = .ok n →
        ∀ v < Bits.limit 64, e'.selects v = true ↔
          (if width < 64 then v % 2 ^ width else v) = n) := by
  refine ⟨fun mark hmark digits htext => ⟨fun hdigits hlength => ?_, ?_⟩, fun hmark => ?_⟩
  · have hchars : ∀ c ∈ digits.filter (· != '_'), c ∈ digitChars := fun c hc => by
      obtain ⟨hc, hne⟩ := List.mem_filter.1 hc
      exact (hdigits c hc).resolve_left (by simpa using hne)
    have hread : ofDigits? digits =
        some (ofBits ((digits.filter (· != '_')).map fun c => (bit? c).join)) := by
      rw [ofDigits?, mapM_bit?_eq_some hchars, Option.map_some]
    refine ⟨_, withText_of_mark hmark htext hread e width, fun v => ?_⟩
    rw [selects, beq_iff_eq, and_mask_eq_value_iff, hasDigits_iff hlength]
  · rintro ⟨c, hc, hne, hchar⟩
    have hread : ofDigits? digits = none := by
      have hmem : c ∈ digits.filter (· != '_') := List.mem_filter.2 ⟨hc, by simpa using hne⟩
      rw [ofDigits?, mapM_bit?_eq_none hchar hmem, Option.map_none]
    exact withText_eq_error hmark htext hread e width
  · rw [withText_of_no_mark hmark]
    refine ⟨?_, fun e' n he' hn v hv => ?_⟩
    · cases Numeral.number text <;> simp [Except.map]
    · rw [hn] at he'
      cases he'
      rw [selects, beq_iff_eq, Bits.and_lowMask hv]

section Example

/-- Spelled with a digit that is free, between blanks. -/
private def free : String := " 0b1x_0 "

private theorem toList_free : (Text.trim free).toList = "0b".toList ++ ['1', 'x', '_', '0'] := by
  decide

theorem withText_spelled_free :
    (∃ e', ({} : Enumeration).withText free 3 = .ok e' ∧
      e'.selects 6 = true ∧ e'.selects 5 = false) ∧
    ({} : Enumeration).withText "#12" 3 = .error ⟨[], .illegalBitPattern "#12"⟩ ∧
    ∃ e', ({} : Enumeration).withText "3" 4 = .ok e' ∧
      e'.selects 19 = true ∧ e'.selects 2 = false := by
  refine ⟨?_, ?_, ?_⟩
  · obtain ⟨hbits, -⟩ := withText_spelled {} free 3
    have hdigits : ∀ c ∈ ['1', 'x', '_', '0'], c = '_' ∨ c ∈ digitChars := by simp [digitChars]
    obtain ⟨e', he', hselects⟩ := (hbits "0b" (by decide) _ toList_free).1 hdigits (by decide)
    refine ⟨e', he', (hselects 6).2 fun i => ?_, Bool.eq_false_iff.2 fun h => ?_⟩
    · match i with
      | 0 | 1 | 2 => decide
      | i + 3 => exact ⟨nofun, nofun⟩
    · -- the digit at the right is zero
      exact absurd (((hselects 5).1 h 0).1 rfl) (by decide)
  · exact ((withText_spelled {} "#12" 3).1 "#" (by decide) ['1', '2'] (by decide)).2
      ⟨'2', by decide, by decide, by decide⟩
  · obtain ⟨hiff, hselects⟩ := (withText_spelled {} "3" 4).2 (by decide)
    have hnumber : Numeral.number "3" = .ok 3 := by decide
    obtain ⟨e', he'⟩ := hiff.2 ⟨3, hnumber⟩
    refine ⟨e', he', (hselects e' 3 he' hnumber 19 (by decide)).2 (by decide), ?_⟩
    have htwo := hselects e' 3 he' hnumber 2 (by decide)
    exact Bool.eq_false_iff.2 fun h => absurd (htwo.1 h) (by decide)

end Example

end Enumeration

end RegisterMap
