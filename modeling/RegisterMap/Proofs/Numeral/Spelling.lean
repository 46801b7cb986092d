import Mathlib.Data.List.Forall2
import Mathlib.Data.Nat.Digits.Defs
import RegisterMap.Proofs.Numeral
import RegisterMap.Svd.Content

/-!
# Numbers as they are spelled

The texts that are numbers, by a grammar of their own (`Numeral.Spells`): decimal digits, or the
digits of another radix behind its mark, where underscores do not count. Exactly these are read,
with blanks around them or none, and as the number that their digits denote, if it has no more than
64 bits (`Numeral.number_spelled`). Digits are read from the left and a number that grows too large
is refused at once; nothing is lost by that, since more digits never make it smaller
(`Numeral.readDigits_eq_ok_iff`).
-/

namespace RegisterMap.Numeral

open Text

/-! ## The grammar -/

/-- The character is a digit of the radix, a letter in either case. -/
def IsDigit (radix : Nat) (c : Char) (d : Nat) : Prop :=
  d < radix ∧ (c = d.digitChar ∨ c = d.digitChar.toUpper)

/-- The characters are digits of the radix and denote the number. -/
def Denotes (radix : Nat) (cs : List Char) (n : Nat) : Prop :=
  ∃ ds, List.Forall₂ (IsDigit radix) cs ds ∧ Nat.ofDigits radix ds.reverse = n

/-- The number in one or more digits of the radix, with a plus sign in front or none. -/
inductive SpellsUnsigned (radix : Nat) : List Char → Nat → Prop
  | bare {cs : List Char} {n : Nat} : cs ≠ [] → Denotes radix cs n → SpellsUnsigned radix cs n
  | plus {cs : List Char} {n : Nat} : cs ≠ [] → Denotes radix cs n →
      SpellsUnsigned radix ('+' :: cs) n

/-- The marks that stand in front of the digits, with the radix of these. -/
def marks : List (String × Nat) := [("0x", 16), ("0X", 16), ("0b", 2), ("0B", 2), ("#", 2)]

/-- The texts that are numbers. Behind a mark there may be underscores. -/
inductive Spells : List Char → Nat → Prop
  | decimal {cs : List Char} {n : Nat} : SpellsUnsigned 10 cs n → Spells cs n
  | marked {mark : String} {radix : Nat} {cs : List Char} {n : Nat} : (mark, radix) ∈ marks →
      SpellsUnsigned radix (cs.filter (· != '_')) n → Spells (mark.toList ++ cs) n

variable {radix limit m n d : Nat} {c : Char} {cs : List Char} {mark : String}

/-! ## Digits -/

/-- A property of the characters in a row, checked one by one. -/
theorem forall_between (first count : Nat) {P : Nat → Char → Prop}
    (h : ∀ k < count, P k (Char.ofNat (first + k))) (hlow : first ≤ c.toNat)
    (hhigh : c.toNat < first + count) : P (c.toNat - first) c := by
  have hc := h (c.toNat - first) (by omega)
  rwa [Nat.add_sub_cancel' hlow, Char.ofNat_toNat] at hc

theorem digitValue?_eq_some_iff (hradix : radix ≤ 16) :
    digitValue? radix c = some d ↔ IsDigit radix c d := by
  constructor
  · intro h
    have hlt := lt_of_digitValue?_eq_some h
    refine ⟨hlt, ?_⟩
    have hle (a b : Char) : a ≤ b ↔ a.toNat ≤ b.toNat := UInt32.le_iff_toNat_le
    obtain ⟨-, hvalue⟩ := Option.ite_none_right_eq_some.1 h
    simp only [hle, Option.some.injEq] at hvalue
    split at hvalue
    · rename_i hc
      change 48 ≤ c.toNat ∧ c.toNat ≤ 57 at hc
      have hrow := forall_between 48 10 (P := fun k c => c = k.digitChar) (by decide) hc.1
        (by omega)
      exact .inl (hvalue ▸ hrow)
    · split at hvalue
      · rename_i hc
        change 97 ≤ c.toNat ∧ _ at hc
        have hrow := forall_between 97 6 (P := fun k c => c = (10 + k).digitChar) (by decide) hc.1
          (by omega)
        have hd : 10 + (c.toNat - 97) = d := by omega
        exact .inl (hd ▸ hrow)
      · split at hvalue
        · rename_i hc
          change 65 ≤ c.toNat ∧ _ at hc
          have hrow := forall_between 65 6 (P := fun k c => c = (10 + k).digitChar.toUpper)
            (by decide) hc.1 (by omega)
          have hd : 10 + (c.toNat - 65) = d := by omega
          exact .inr (hd ▸ hrow)
        · omega
  · have hread : ∀ r ≤ 16, ∀ k < r, digitValue? r k.digitChar = some k ∧
        digitValue? r k.digitChar.toUpper = some k := by decide
    rintro ⟨hlt, rfl | rfl⟩
    · exact (hread radix hradix d hlt).1
    · exact (hread radix hradix d hlt).2

/-- No digit is a blank, a sign or an underscore. -/
theorem IsDigit.ne (hradix : radix ≤ 16) (h : IsDigit radix c d) :
    isBlank c = false ∧ c ≠ '+' := by
  have hall : ∀ k < 16, (isBlank k.digitChar = false ∧ k.digitChar ≠ '+') ∧
      isBlank k.digitChar.toUpper = false ∧ k.digitChar.toUpper ≠ '+' := by decide
  obtain ⟨hlower, hupper⟩ := hall d (Nat.lt_of_lt_of_le h.1 hradix)
  rcases h.2 with rfl | rfl
  · exact hlower
  · exact hupper

/-- The digits that are read are those of the number, and none of the numbers on the way is larger
than it. -/
theorem readDigits_eq_ok_iff (hradix : radix ≤ 16) (hm : m < limit) :
    readDigits radix limit m cs = .ok n ↔ n < limit ∧ ∃ ds, List.Forall₂ (IsDigit radix) cs ds ∧
      m * radix ^ ds.length + Nat.ofDigits radix ds.reverse = n := by
  induction cs generalizing m with
  | nil =>
    have hnil : (∃ ds, List.Forall₂ (IsDigit radix) [] ds ∧
        m * radix ^ ds.length + Nat.ofDigits radix ds.reverse = n) ↔ m = n := by
      simp [List.forall₂_nil_left_iff]
    rw [hnil, readDigits, Except.ok.injEq]
    exact ⟨fun h => ⟨h ▸ hm, h⟩, And.right⟩
  | cons c cs ih =>
    -- the digit in front counts once for each number that the digits behind it could denote
    have hvalue (d : Nat) (ds : List Nat) :
        m * radix ^ (d :: ds).length + Nat.ofDigits radix (d :: ds).reverse =
          (m * radix + d) * radix ^ ds.length + Nat.ofDigits radix ds.reverse := by
      rw [List.reverse_cons, Nat.ofDigits_append, Nat.ofDigits_singleton, List.length_reverse,
        List.length_cons, Nat.pow_succ']
      ring
    rw [readDigits]
    constructor
    · cases hc : digitValue? radix c with
      | none =>
        intro h
        cases h
      | some d =>
        simp only
        split
        · rename_i hlt
          intro h
          obtain ⟨hn, ds, hds, hsum⟩ := (ih hlt).1 h
          exact ⟨hn, d :: ds, .cons ((digitValue?_eq_some_iff hradix).1 hc) hds,
            (hvalue d ds).trans hsum⟩
        · intro h
          cases h
    · rintro ⟨hn, _, hds, hsum⟩
      cases hds with
      | @cons _ d _ ds hd hds =>
        rw [hvalue] at hsum
        have hpow : 0 < radix ^ ds.length := Nat.pow_pos (Nat.zero_lt_of_lt hd.1)
        have hlt : m * radix + d < limit := by
          have := Nat.le_mul_of_pos_right (m * radix + d) hpow
          omega
        rw [(digitValue?_eq_some_iff hradix).2 hd]
        simp only [hlt, if_true]
        exact (ih hlt).2 ⟨hn, ds, hds, hsum⟩

/-- From its first digit on, a text is read as what it denotes. -/
theorem readDigits_zero_eq_ok_iff (hradix : radix ≤ 16) (hlimit : 0 < limit) :
    readDigits radix limit 0 cs = .ok n ↔ n < limit ∧ Denotes radix cs n := by
  simp [readDigits_eq_ok_iff hradix hlimit, Denotes]

theorem Denotes.exists_isDigit (h : Denotes radix cs n) (hc : c ∈ cs) : ∃ d, IsDigit radix c d := by
  obtain ⟨ds, hds, -⟩ := h
  induction hds with
  | nil => cases hc
  | @cons _ d _ _ hd _ ih =>
    rcases List.mem_cons.1 hc with rfl | hc
    · exact ⟨d, hd⟩
    · exact ih hc

/-! ## Signs -/

/-- The characters of a number without a mark are digits, but for the sign. -/
theorem SpellsUnsigned.eq_or_isDigit (h : SpellsUnsigned radix cs n) (hc : c ∈ cs) :
    c = '+' ∨ ∃ d, IsDigit radix c d := by
  cases h with
  | bare _ hdigits => exact .inr (hdigits.exists_isDigit hc)
  | plus _ hdigits =>
    rcases List.mem_cons.1 hc with rfl | hc
    · exact .inl rfl
    · exact .inr (hdigits.exists_isDigit hc)

theorem SpellsUnsigned.ne_nil (h : SpellsUnsigned radix cs n) : cs ≠ [] := by
  cases h with
  | bare hne _ => exact hne
  | plus => exact List.cons_ne_nil _ _

/-- A sign in front is passed over, and only one. -/
theorem spellsUnsigned_plus_iff (hradix : radix ≤ 16) :
    SpellsUnsigned radix ('+' :: cs) n ↔ cs ≠ [] ∧ Denotes radix cs n := by
  constructor
  · intro h
    cases h with
    | bare _ hdigits =>
      obtain ⟨d, hd⟩ := hdigits.exists_isDigit List.mem_cons_self
      exact absurd rfl (hd.ne hradix).2
    | plus hne hdigits => exact ⟨hne, hdigits⟩
  · exact fun h => .plus h.1 h.2

theorem spellsUnsigned_iff (hplus : cs.head? ≠ some '+') :
    SpellsUnsigned radix cs n ↔ cs ≠ [] ∧ Denotes radix cs n := by
  constructor
  · intro h
    cases h with
    | bare hne hdigits => exact ⟨hne, hdigits⟩
    | plus => exact absurd rfl hplus
  · exact fun h => .bare h.1 h.2

theorem unsigned_eq_ok_iff (hradix : radix ≤ 16) (hlimit : 0 < limit) :
    unsigned radix limit cs = .ok n ↔ n < limit ∧ SpellsUnsigned radix cs n := by
  fun_cases unsigned radix limit cs with
  | case1 => simpa using fun _ h => h.ne_nil rfl
  | case2 => simp [spellsUnsigned_plus_iff hradix]
  | case3 ds hne =>
    rw [readDigits_zero_eq_ok_iff hradix hlimit, spellsUnsigned_plus_iff hradix, and_iff_right hne]
  | case4 _ hne _ hplus =>
    have hhead : cs.head? ≠ some '+' := fun h => by
      obtain ⟨ds, rfl⟩ := List.head?_eq_some_iff.1 h
      exact hplus ds rfl
    rw [readDigits_zero_eq_ok_iff hradix hlimit, spellsUnsigned_iff hhead, and_iff_right hne]

/-! ## Marks -/

theorem radix_le_of_mem_marks : ∀ m ∈ marks, m.2 ≤ 16 := by decide

/-- No mark begins another, so that a text has one at most. -/
theorem eq_of_prefix_of_mem_marks :
    ∀ a ∈ marks, ∀ b ∈ marks, a.1.toList <+: b.1.toList → a = b := by
  decide

/-- A mark has a character that is neither a decimal digit nor a sign. -/
theorem exists_mem_mark (hmark : (mark, radix) ∈ marks) :
    ∃ c ∈ mark.toList, c ≠ '+' ∧ digitValue? 10 c = none := by
  have hany : ∀ m ∈ marks, m.1.toList.any (fun c => c ≠ '+' ∧ digitValue? 10 c = none) = true := by
    decide
  simpa using hany _ hmark

theorem spells_marked_iff (hmark : (mark, radix) ∈ marks) :
    Spells (mark.toList ++ cs) n ↔ SpellsUnsigned radix (cs.filter (· != '_')) n := by
  constructor
  · intro h
    generalize htext : mark.toList ++ cs = text at h
    cases h with
    | decimal hdecimal =>
      obtain ⟨c, hc, hplus, hdigit⟩ := exists_mem_mark hmark
      have hmem : c ∈ text := htext ▸ List.mem_append_left cs hc
      obtain ⟨d, hd⟩ := (hdecimal.eq_or_isDigit hmem).resolve_left hplus
      rw [(digitValue?_eq_some_iff (by decide)).2 hd] at hdigit
      cases hdigit
    | @marked mark' radix' cs' _ hmark' hdigits =>
      have hsame : (mark, radix) = (mark', radix') := by
        rcases List.prefix_or_prefix_of_prefix (List.prefix_append mark.toList cs)
          (htext ▸ List.prefix_append mark'.toList cs') with h | h
        · exact eq_of_prefix_of_mem_marks _ hmark _ hmark' h
        · exact (eq_of_prefix_of_mem_marks _ hmark' _ hmark h).symm
      cases hsame
      rwa [List.append_cancel_left htext]
  · exact .marked hmark

theorem spells_unmarked_iff (hmarks : ∀ m ∈ marks, ¬m.1.toList <+: cs) :
    Spells cs n ↔ SpellsUnsigned 10 cs n := by
  constructor
  · intro h
    cases h with
    | decimal h => exact h
    | marked hmark _ => exact absurd (List.prefix_append _ _) (hmarks _ hmark)
  · exact .decimal

/-- Behind a mark, the text without its underscores is a number of the mark's radix. -/
theorem notation?_marked (hmark : (mark, radix) ∈ marks) (cs : List Char) :
    notation? (mark.toList ++ cs) = unsigned radix (Bits.limit 64) (cs.filter (· != '_')) := by
  simp only [marks, List.mem_cons, Prod.mk.injEq, List.not_mem_nil, or_false] at hmark
  rcases hmark with ⟨rfl, rfl⟩ | ⟨rfl, rfl⟩ | ⟨rfl, rfl⟩ | ⟨rfl, rfl⟩ | ⟨rfl, rfl⟩ <;> rfl

theorem notation?_unmarked (hmarks : ∀ m ∈ marks, ¬m.1.toList <+: cs) :
    notation? cs = unsigned 10 (Bits.limit 64) cs := by
  have hnone (ms : List String) (hsub : ms ⊆ marks.map Prod.fst) : marked? ms cs = none := by
    rw [marked?, Option.map_eq_none_iff, List.findSome?_eq_none_iff]
    intro mark hmark
    obtain ⟨m, hm, rfl⟩ := List.mem_map.1 (hsub hmark)
    rw [afterMark?, if_neg]
    exact fun hp => hmarks m hm (List.isPrefixOf_iff_prefix.1 hp)
  rw [notation?, hnone ["0x", "0X"] (by simp [marks]), hnone ["0b", "0B", "#"] (by simp [marks])]

/-- Without blanks around it, exactly the texts of the grammar are read. -/
theorem notation?_eq_ok_iff : notation? cs = .ok n ↔ n < Bits.limit 64 ∧ Spells cs n := by
  by_cases hmarks : ∃ m ∈ marks, m.1.toList <+: cs
  · obtain ⟨⟨mark, radix⟩, hmark, rest, rfl⟩ := hmarks
    rw [notation?_marked hmark, unsigned_eq_ok_iff (radix_le_of_mem_marks _ hmark)
      (Bits.limit_pos 64), spells_marked_iff hmark]
  · have hmarks : ∀ m ∈ marks, ¬m.1.toList <+: cs := fun m hm hp => hmarks ⟨m, hm, hp⟩
    rw [notation?_unmarked hmarks, unsigned_eq_ok_iff (by decide) (Bits.limit_pos 64),
      spells_unmarked_iff hmarks]

/-! ## Texts -/

theorem SpellsUnsigned.not_isBlank (hradix : radix ≤ 16) (h : SpellsUnsigned radix cs n)
    (hc : c ∈ cs) : isBlank c = false := by
  rcases h.eq_or_isDigit hc with rfl | ⟨d, hd⟩
  · rfl
  · exact (hd.ne hradix).1

/-- A number has no blank in it. -/
theorem Spells.isTrimmed (h : Spells cs n) : IsTrimmed cs := by
  refine isTrimmed_of_forall fun c hc => ?_
  cases h with
  | decimal h => exact h.not_isBlank (by decide) hc
  | @marked mark _ cs _ hmark h =>
    have hmarks : ∀ m ∈ marks, m.1.toList.all (!isBlank ·) = true := by decide
    rcases List.mem_append.1 hc with hc | hc
    · exact eq_false_of_all (hmarks _ hmark) hc
    · by_cases hunderscore : c = '_'
      · rw [hunderscore]
        rfl
      · exact h.not_isBlank (radix_le_of_mem_marks _ hmark)
          (List.mem_filter.2 ⟨hc, by simpa using hunderscore⟩)

/-- **Numbers are read exactly.** A text is read as a number if and only if it is, up to blanks
around it, an optional plus sign and decimal digits, or one of the marks `0x`, `0X`, `0b`, `0B` and
`#` and behind it, underscores aside, an optional plus sign and digits of the radix of the mark, and
if the digits denote this number and it has 64 bits. So the decimal digits of every number of 64
bits, and its hexadecimal digits as they are written behind their mark, are read as the number. -/
theorem number_spelled (s : String) (n : Nat) :
    (number s = .ok n ↔ n < 2 ^ 64 ∧ ∃ before text after, s.toList = before ++ text ++ after ∧
      (∀ c ∈ before ++ after, isBlank c = true) ∧ Spells text n) ∧
    (n < 2 ^ 64 → ∀ tag,
      (∃ s, Svd.decimal tag n = .leaf tag s ∧ number s = .ok n) ∧
      ∃ s, Svd.hex tag n = .leaf tag s ∧ number s = .ok n) := by
  have hlimit : Bits.limit 64 = 2 ^ 64 := Bits.limit_eq 64
  rw [number_eq_ok_iff, notation?_eq_ok_iff, hlimit]
  refine ⟨and_congr_right fun _ => ⟨fun h => ?_, ?_⟩, fun hn tag => ?_⟩
  · obtain ⟨-, before, after, hs, hblank⟩ := trim_eq_iff.1 (rfl : trim s = _)
    exact ⟨before, _, after, hs, hblank, h⟩
  · rintro ⟨before, text, after, hs, hblank, h⟩
    have htrim : trim s = .ofList text :=
      trim_eq_iff.2 ⟨by simpa using h.isTrimmed, before, after, by simpa using hs, hblank⟩
    rwa [htrim, String.toList_ofList]
  · rw [← hlimit] at hn
    exact ⟨⟨_, rfl, number_toString hn⟩, _, rfl, number_hex hn⟩

theorem number_spelled_mask :
    number " 0x_fF\n" = .ok 255 ∧ number "18446744073709551616" ≠ .ok (2 ^ 64) ∧
    ∃ s, Svd.hex "resetMask" (2 ^ 64 - 1) = .leaf "resetMask" s ∧ number s = .ok (2 ^ 64 - 1) := by
  have hf : IsDigit 16 'f' 15 := ⟨by decide, .inl rfl⟩
  have hF : IsDigit 16 'F' 15 := ⟨by decide, .inr rfl⟩
  have hdigits : Denotes 16 ['f', 'F'] 255 := ⟨[15, 15], .cons hf (.cons hF .nil), by decide⟩
  have hmark : ("0x", 16) ∈ marks := by decide
  have hspells : Spells ("0x".toList ++ ['_', 'f', 'F']) 255 :=
    .marked hmark (.bare (by decide) hdigits)
  refine ⟨(number_spelled " 0x_fF\n" 255).1.2
      ⟨by decide, [' '], _, ['\n'], by decide, List.all_eq_true.1 (by decide), hspells⟩,
    fun h => ?_,
    ((number_spelled "" (2 ^ 64 - 1)).2 (by decide) "resetMask").2⟩
  exact absurd ((number_spelled _ _).1.1 h).1 (by decide)

end RegisterMap.Numeral
