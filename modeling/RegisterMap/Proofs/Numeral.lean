import RegisterMap.Numeral
import RegisterMap.Proofs.Text
import RegisterMap.Text.Edit

/-!
# Numbers that were written

A number in decimal digits, or in hexadecimal digits after their mark, is read as itself as long as
it fits (`number_toString`, `number_hex`, `signed_toString`), and so is a list of indexes
(`indexes_intercalate`), unless it is a single one that spells a range.
-/

namespace RegisterMap.Numeral

open Text

variable {radix limit n : Nat} {cs ds : List Char}

/-! ## Digits -/

theorem readDigits_append (m : Nat) (cs ds : List Char) :
    readDigits radix limit m (cs ++ ds) =
      readDigits radix limit m cs >>= fun k => readDigits radix limit k ds := by
  induction cs generalizing m with
  | nil => rfl
  | cons c cs ih =>
    rw [List.cons_append, readDigits, readDigits]
    cases digitValue? radix c with
    | none => rfl
    | some d =>
      simp only
      split
      · exact ih _
      · rfl

/-- The digits of a number below the limit are read as the number. -/
theorem readDigits_toDigits {f : Char → Char} (hradix : 1 < radix)
    (hf : ∀ d < radix, digitValue? radix (f d.digitChar) = some d) (hn : n < limit) :
    readDigits radix limit 0 ((Nat.toDigits radix n).map f) = .ok n := by
  induction n using Nat.strongRecOn with
  | ind n ih =>
    by_cases hlt : n < radix
    · rw [Nat.toDigits_of_lt_base hlt, List.map_singleton, readDigits, hf n hlt]
      simp [hn, readDigits]
    · have hle := Nat.le_of_not_lt hlt
      have hdiv : n / radix < n := Nat.div_lt_self (by omega) hradix
      have hmod : n / radix * radix + n % radix = n := by
        rw [Nat.mul_comm]
        exact Nat.div_add_mod n radix
      rw [Nat.toDigits_of_base_le hradix hle, List.map_append, readDigits_append,
        ih _ hdiv (Nat.lt_trans hdiv hn), List.map_singleton]
      simp [readDigits, bind, Except.bind, hf _ (Nat.mod_lt n (by omega)), hmod, hn]

theorem digitValue?_digitChar : ∀ d < 10, digitValue? 10 (Nat.digitChar d) = some d := by decide

theorem digitValue?_toUpper : ∀ d < 16, digitValue? 16 (Nat.digitChar d).toUpper = some d := by
  decide

/-- A text with anything but digits is no number, up to a plus sign. -/
theorem readDigits_of_mem {c : Char} (hc : digitValue? radix c = none) (h : c ∈ cs) (m : Nat) :
    (readDigits radix limit m cs).toOption = none := by
  induction cs generalizing m with
  | nil => cases h
  | cons d ds ih =>
    rw [readDigits]
    cases hd : digitValue? radix d with
    | none => rfl
    | some k =>
      have hm : c ∈ ds := (List.mem_cons.1 h).resolve_left fun e => by simp [← e, hc] at hd
      simp only
      split
      · exact ih hm _
      · rfl

theorem unsigned_of_mem {c : Char} (hc : digitValue? radix c = none) (hplus : c ≠ '+')
    (h : c ∈ cs) : (unsigned radix limit cs).toOption = none := by
  unfold unsigned
  split
  · cases h
  · rfl
  · exact readDigits_of_mem hc ((List.mem_cons.1 h).resolve_left hplus) 0
  · exact readDigits_of_mem hc h 0

/-! ## Decimal numbers -/

theorem toList_toString (n : Nat) : (toString n).toList = Nat.toDigits 10 n := by
  rw [Nat.toString_eq_ofList_toDigits, String.toList_ofList]

theorem isDigit_of_mem_toString {c : Char} (h : c ∈ (toString n).toList) : c.isDigit = true := by
  rw [toList_toString] at h
  exact Nat.isDigit_of_mem_toDigits (by decide) (by decide) h

theorem mem_of_isDigit {c : Char} (h : c.isDigit = true) : c ∈ "0123456789-".toList := by
  simp only [Char.isDigit, Bool.and_eq_true, decide_eq_true_eq, UInt32.le_iff_toNat_le] at h
  change 48 ≤ c.toNat ∧ c.toNat ≤ 57 at h
  have hall : ∀ k < 10, Char.ofNat (48 + k) ∈ "0123456789-".toList := by decide
  have hc := hall (c.toNat - 48) (by omega)
  rwa [Nat.add_sub_cancel' h.1, Char.ofNat_toNat] at hc

theorem mem_toString {c : Char} (h : c ∈ (toString n).toList) : c ∈ "0123456789-".toList :=
  mem_of_isDigit (isDigit_of_mem_toString h)

theorem not_mem_toString {c : Char} (hc : c.isDigit = false) : c ∉ (toString n).toList := by
  intro h
  rw [isDigit_of_mem_toString h] at hc
  cases hc

theorem not_isBlank_of_mem {c : Char} (h : c ∈ "0123456789-".toList) : isBlank c = false :=
  eq_false_of_all (by decide) h

theorem isTrimmed_toString (n : Nat) : IsTrimmed (toString n).toList :=
  isTrimmed_of_forall fun _ hc => not_isBlank_of_mem (mem_toString hc)

theorem trim_toString (n : Nat) : trim (toString n) = toString n :=
  trim_eq_self_iff.2 (isTrimmed_toString n)

theorem toString_ne_nil (n : Nat) : (toString n).toList ≠ [] := by
  rw [toList_toString]
  exact Nat.toDigits_ne_nil

/-- A text without a plus sign in front is read as the digits that it consists of. -/
theorem unsigned_eq (hne : ds ≠ []) (hplus : '+' ∉ ds) :
    unsigned radix limit ds = readDigits radix limit 0 ds := by
  obtain ⟨c, cs, rfl⟩ := List.exists_cons_of_ne_nil hne
  have hc : c ≠ '+' := fun e => hplus (e ▸ List.mem_cons_self)
  unfold unsigned
  split <;> rename_i heq <;> first | rfl | exact absurd (List.cons.inj heq).1 hc | cases heq

theorem unsigned_toString (hn : n < limit) : unsigned 10 limit (toString n).toList = .ok n := by
  rw [unsigned_eq (toString_ne_nil n) (not_mem_toString (by decide)), toList_toString]
  simpa using readDigits_toDigits (f := id) (by decide) digitValue?_digitChar hn

theorem afterMark?_eq_none {mark : List Char} {c : Char} (hc : c ∈ mark) (h : c ∉ cs) :
    afterMark? mark cs = none := by
  rw [afterMark?, if_neg]
  intro hp
  exact h ((List.isPrefixOf_iff_prefix.1 hp).subset hc)

theorem marked?_eq_none {marks : List String} (h : ∀ m ∈ marks, ∃ c ∈ m.toList, c ∉ cs) :
    marked? marks cs = none := by
  rw [marked?, Option.map_eq_none_iff, List.findSome?_eq_none_iff]
  intro m hm
  obtain ⟨c, hc, hcs⟩ := h m hm
  exact afterMark?_eq_none hc hcs

/-- Digits alone are a number in decimal notation. -/
theorem notation?_toString (hn : n < Bits.limit 64) : notation? (toString n).toList = .ok n := by
  have hmarks : ["0x", "0X", "0b", "0B", "#"].all (·.toList.any (!·.isDigit)) = true := by decide
  have hnone (marks : List String) (hsub : marks ⊆ ["0x", "0X", "0b", "0B", "#"]) :
      marked? marks (toString n).toList = none :=
    marked?_eq_none fun m hm =>
      let ⟨c, hc, hdigit⟩ := List.any_eq_true.1 (List.all_eq_true.1 hmarks m (hsub hm))
      ⟨c, hc, not_mem_toString (by simpa using hdigit)⟩
  rw [notation?, hnone ["0x", "0X"] (by simp), hnone ["0b", "0B", "#"] (by simp)]
  exact unsigned_toString hn

theorem number_trim (s : String) : number (trim s) = number s := by
  unfold number
  rw [trim_trim]

/-- What is read is what the text without the blanks around it says. -/
theorem number_eq_ok_iff {s : String} :
    number s = .ok n ↔ notation? (trim s).toList = .ok n := by
  unfold number
  cases h : notation? (trim s).toList with
  | ok m => simp [h]
  | error => simp [h, fail]

/-- A trimmed text is read as what it says. -/
theorem number_eq {s : String} (hs : IsTrimmed s.toList) (h : notation? s.toList = .ok n) :
    number s = .ok n :=
  number_eq_ok_iff.2 (by rwa [trim_eq_self_iff.2 hs])

theorem number_toString (hn : n < Bits.limit 64) : number (toString n) = .ok n :=
  number_eq (isTrimmed_toString n) (notation?_toString hn)

/-! ## Hexadecimal numbers -/

theorem toList_hex (n : Nat) :
    s!"0x{hex n}".toList = '0' :: 'x' :: (Nat.toDigits 16 n).map Char.toUpper := by
  have hlen : 1 - (Nat.toDigits 16 n).length = 0 := by
    have := Nat.length_toDigits_pos (b := 16) (n := n)
    omega
  simp [hex, digits, hlen, ToString.toString]

/-- The characters of hexadecimal digits. -/
theorem mem_hexDigits {c : Char} (h : c ∈ (Nat.toDigits 16 n).map Char.toUpper) :
    c ∈ "0123456789ABCDEF".toList := by
  induction n using Nat.strongRecOn with
  | ind n ih =>
    have hdigit : ∀ d < 16, (Nat.digitChar d).toUpper ∈ "0123456789ABCDEF".toList := by decide
    by_cases hlt : n < 16
    · rw [Nat.toDigits_of_lt_base hlt, List.map_singleton, List.mem_singleton] at h
      rw [h]
      exact hdigit n hlt
    · rw [Nat.toDigits_of_base_le (by decide) (Nat.le_of_not_lt hlt), List.map_append,
        List.mem_append, List.map_singleton, List.mem_singleton] at h
      rcases h with h | h
      · exact ih _ (Nat.div_lt_self (by omega) (by decide)) h
      · rw [h]
        exact hdigit _ (Nat.mod_lt n (by decide))

theorem mem_hex {c : Char} (h : c ∈ s!"0x{hex n}".toList) : c ∈ "0123456789ABCDEFx".toList := by
  rw [toList_hex, List.mem_cons, List.mem_cons] at h
  rcases h with rfl | rfl | h
  · decide
  · decide
  · exact mem_of_all (by decide) (mem_hexDigits h)

theorem isTrimmed_hex (n : Nat) : IsTrimmed s!"0x{hex n}".toList :=
  isTrimmed_of_forall fun _ hc => eq_false_of_all (by decide) (mem_hex hc)

theorem number_hex (hn : n < Bits.limit 64) : number s!"0x{hex n}" = .ok n := by
  have hdigits (c : Char) (hc : c ∉ "0123456789ABCDEF".toList) :
      c ∉ (Nat.toDigits 16 n).map Char.toUpper := fun h => hc (mem_hexDigits h)
  have hmark : marked? ["0x", "0X"] s!"0x{hex n}".toList =
      some ((Nat.toDigits 16 n).map Char.toUpper) := by
    have hkept : ((Nat.toDigits 16 n).map Char.toUpper).filter (· != '_') =
        (Nat.toDigits 16 n).map Char.toUpper :=
      List.filter_eq_self.2 fun c hc => bne_iff_ne.2 fun e => hdigits '_' (by decide) (e ▸ hc)
    have hafter : afterMark? "0x".toList ('0' :: 'x' :: (Nat.toDigits 16 n).map Char.toUpper) =
        some ((Nat.toDigits 16 n).map Char.toUpper) := rfl
    rw [marked?, toList_hex, List.findSome?_cons, hafter]
    simpa using hkept
  have hne : (Nat.toDigits 16 n).map Char.toUpper ≠ [] := by
    simp [Nat.toDigits_ne_nil]
  have hread : notation? s!"0x{hex n}".toList = .ok n := by
    unfold notation?
    simp only [hmark]
    rw [unsigned_eq hne (hdigits '+' (by decide))]
    exact readDigits_toDigits (by decide) digitValue?_toUpper hn
  exact number_eq (isTrimmed_hex n) hread

/-! ## Signed numbers -/

theorem toString_int (i : Int) :
    toString i = if 0 ≤ i then toString i.toNat else "-" ++ toString (-i).toNat :=
  Int.repr_eq_if

theorem mem_toString_int {i : Int} {c : Char} (h : c ∈ (toString i).toList) :
    c ∈ "0123456789-".toList := by
  rw [toString_int] at h
  split at h
  · exact mem_toString h
  · rw [String.toList_append, List.mem_append] at h
    rcases h with h | h
    · exact mem_of_all (by decide) h
    · exact mem_toString h

theorem narrow_eq_ok {bits : Nat} (hn : n < Bits.limit bits) : narrow bits n = .ok n := if_pos hn

theorem signed_of_nonneg (hn : n < Bits.limit 63) : signed (toString n) = .ok n := by
  have hlimit := Nat.lt_of_lt_of_le hn (Bits.limit_le (by decide : 63 ≤ 64))
  have hminus : '-' ∉ (toString n).toList := not_mem_toString (by decide)
  have hnumber : number (.ofList (toString n).toList) = .ok n := by
    rw [String.ofList_toList, number_toString hlimit]
  unfold signed
  rw [trim_toString]
  generalize (toString n).toList = cs at hminus hnumber
  split
  · exact absurd List.mem_cons_self hminus
  · simp only [hnumber, bind, Except.bind, narrow_eq_ok hn, pure, Except.pure]

theorem signed_of_neg (hn : n < Bits.limit 63) : signed ("-" ++ toString n) = .ok (-n) := by
  have hlimit := Nat.lt_of_lt_of_le hn (Bits.limit_le (by decide : 63 ≤ 64))
  have htrim : trim ("-" ++ toString n) = "-" ++ toString n := by
    refine trim_eq_self_iff.2 (isTrimmed_of_forall fun c hc => ?_)
    rw [String.toList_append, List.mem_append] at hc
    rcases hc with hc | hc
    · exact eq_false_of_all (by decide) hc
    · exact not_isBlank_of_mem (mem_toString hc)
  have hlist : ("-" ++ toString n).toList = '-' :: (toString n).toList := by
    rw [String.toList_append]
    rfl
  unfold signed
  rw [htrim, hlist]
  simp only [String.ofList_toList, number_toString hlimit, bind, Except.bind, narrow_eq_ok hn,
    pure, Except.pure]

/-- A signed number is read as itself. -/
theorem signed_toString {i : Int} (hi : i.natAbs < Bits.limit 63) :
    signed (toString i) = .ok i := by
  rw [toString_int]
  split
  · rename_i hpos
    rw [signed_of_nonneg (by omega), Int.toNat_of_nonneg hpos]
  · rename_i hneg
    rw [signed_of_neg (by omega)]
    congr 1
    omega

theorem narrowSigned_eq_ok_iff {bits : Nat} {i j : Int} : narrowSigned bits i = .ok j ↔
    (-(Bits.limit (bits - 1) : Int) ≤ i ∧ i < Bits.limit (bits - 1)) ∧ i = j := by
  rw [narrowSigned]
  split
  · simp only [fail, reduceCtorEq, false_iff]
    omega
  · split
    · rw [Except.ok.injEq]
      omega
    · simp only [fail, reduceCtorEq, false_iff]
      omega

theorem narrowSigned_eq_ok {bits : Nat} {i : Int} (hlow : -(Bits.limit (bits - 1) : Int) ≤ i)
    (hhigh : i < Bits.limit (bits - 1)) : narrowSigned bits i = .ok i :=
  narrowSigned_eq_ok_iff.2 ⟨⟨hlow, hhigh⟩, rfl⟩

/-! ## Indexes -/

theorem toList_indexes (ixs : List String) :
    (",".intercalate ixs).toList = [','].intercalate (ixs.map String.toList) :=
  String.toList_intercalate

theorem isTrimmed_indexes {ixs : List String} (h : ∀ ix ∈ ixs, IsTrimmed ix.toList) :
    IsTrimmed (",".intercalate ixs).toList := by
  rw [toList_indexes]
  refine isTrimmed_intercalate (by decide) fun x hx => ?_
  obtain ⟨ix, hix, rfl⟩ := List.mem_map.1 hx
  exact h ix hix

/-- A text with a comma is no range. -/
theorem range?_eq_none (h : ',' ∈ cs) : range? cs = none := by
  rw [range?]
  cases hcut : cut? '-' cs with
  | none => rfl
  | some ends =>
    obtain ⟨first, last⟩ := ends
    have hrefused {s : List Char} (hs : ',' ∈ s) :
        (unsigned 10 (Bits.limit 32) (trim (.ofList s)).toList).toOption = none :=
      unsigned_of_mem (by decide) (by decide) (mem_trim (by decide) hs)
    obtain ⟨rfl, -⟩ := eq_append_of_cut? hcut
    rcases List.mem_append.1 h with hm | hm
    · simp [hrefused hm]
    · have hlast : ',' ∈ last := by simpa using hm
      cases hfirst : (unsigned 10 (Bits.limit 32) (trim (.ofList first)).toList).toOption <;>
        simp [hfirst, hrefused hlast]

/-- Trimmed indexes between commas are read as they are, unless there is but one and it spells a
range. -/
theorem indexes_intercalate {ixs : List String} (hne : ixs ≠ [])
    (htrim : ∀ ix ∈ ixs, IsTrimmed ix.toList) (hcomma : ∀ ix ∈ ixs, ',' ∉ ix.toList)
    (hrange : ∀ ix, ixs = [ix] → range? ix.toList = none) :
    indexes (",".intercalate ixs) = .ok ixs := by
  have htrimmed : trim (",".intercalate ixs) = ",".intercalate ixs :=
    trim_eq_self_iff.2 (isTrimmed_indexes htrim)
  obtain ⟨ix, rest, rfl⟩ := List.exists_cons_of_ne_nil hne
  have hnone : range? (",".intercalate (ix :: rest)).toList = none := by
    cases rest with
    | nil => simpa using hrange ix rfl
    | cons => exact range?_eq_none (by simp)
  have hparts : parts ',' (",".intercalate (ix :: rest)).toList =
      (ix :: rest).map String.toList := by
    obtain ⟨hix, hrest⟩ := List.forall_mem_cons.1 hcomma
    rw [toList_indexes, List.map_cons, parts_intercalate [] (by simp) hix]
    · simp
    · intro y hy
      obtain ⟨z, hz, rfl⟩ := List.mem_map.1 hy
      exact hrest z hz
  have hback : ((ix :: rest).map String.toList).map (fun p => trim (.ofList p)) = ix :: rest := by
    rw [List.map_map]
    refine (List.map_congr_left fun x hx => ?_).trans (List.map_id _)
    rw [Function.comp_apply, String.ofList_toList]
    exact trim_eq_self_iff.2 (htrim x hx)
  unfold indexes
  simp only [htrimmed, hnone, hparts, hback]

end RegisterMap.Numeral
