import RegisterMap.Proofs.Comments.Reader
import RegisterMap.Proofs.Numeral
import RegisterMap.Proofs.Pattern
import RegisterMap.Proofs.Text

/-!
# Texts in a header

Which texts can stand anywhere in a header without touching its comments: names of ASCII letters,
digits and few other characters (`IsOrdinary`), and what is made from them. A description stays
inside the comment that it is put into, whatever its characters (`alike_padded`).
-/

namespace RegisterMap

namespace Text

variable {mark new : List Char} {c : Char} {cs : List Char}

/-- Replacing brings in the characters of the new text only. -/
theorem mem_replaceFrom {skip : Nat} (h : c ∈ replaceFrom mark new skip cs) : c ∈ new ∨ c ∈ cs := by
  fun_induction replaceFrom mark new skip cs with
  | case1 => cases h
  | case2 skip d cs ih => exact (ih h).imp_right (List.mem_cons_of_mem d)
  | case3 d cs _ ih =>
    rcases List.mem_append.1 h with h | h
    · exact .inl h
    · exact (ih h).imp_right (List.mem_cons_of_mem d)
  | case4 d cs _ ih =>
    rcases List.mem_cons.1 h with rfl | h
    · exact .inr List.mem_cons_self
    · exact (ih h).imp_right (List.mem_cons_of_mem d)

theorem mem_replaceAll {mark new s : String} (h : c ∈ (replaceAll mark new s).toList) :
    c ∈ new.toList ∨ c ∈ s.toList := by
  rw [replaceAll, String.toList_ofList] at h
  exact mem_replaceFrom h

theorem mem_respaced {s : String} (h : c ∈ (respaced s).toList) :
    c = ' ' ∨ isBlank c = false := by
  rw [respaced, String.toList_intercalate, List.map_map] at h
  rcases mem_intercalate h with h | ⟨w, hw, h⟩
  · exact .inl (List.mem_singleton.1 h)
  · obtain ⟨v, hv, rfl⟩ := List.mem_map.1 hw
    rw [Function.comp_apply, String.toList_ofList] at h
    exact .inr (not_isBlank_of_mem_words hv h)

end Text

namespace CText

/-! ## Descriptions in comments -/

theorem newline_not_mem_comment (s : String) : '\n' ∉ (comment s).toList := by
  intro h
  rcases Text.mem_replaceAll h with h | h
  · revert h
    decide
  · rcases Text.mem_respaced h with h | h <;> revert h <;> decide

theorem isPrefixOf_closing_iff {c : Char} {cs : List Char} :
    ['*', '/'].isPrefixOf (c :: cs) = true ↔ c = '*' ∧ cs.head? = some '/' := by
  have hslash : ['/'].isPrefixOf cs = true ↔ cs.head? = some '/' := by
    cases cs with
    | nil => simp
    | cons d ds =>
      simp only [List.isPrefixOf, Bool.and_true, beq_iff_eq, List.head?_cons, Option.some.injEq]
      exact eq_comm
  rw [List.isPrefixOf_cons_cons, Bool.and_eq_true, beq_iff_eq, hslash, eq_comm]

/-- Where the ends of comments are taken apart no new ones arise. -/
theorem occurs_replaceFrom_eq_false (skip : Nat) (cs : List Char) :
    Text.occurs ['*', '/'] (Text.replaceFrom ['*', '/'] ['*', ' ', '/'] skip cs) = false ∧
      (skip = 0 → (Text.replaceFrom ['*', '/'] ['*', ' ', '/'] skip cs).head? = cs.head?) := by
  fun_induction Text.replaceFrom ['*', '/'] ['*', ' ', '/'] skip cs with
  | case1 => exact ⟨rfl, fun _ => rfl⟩
  | case2 skip c cs ih => exact ⟨ih.1, fun h => by cases h⟩
  | case3 c cs hmark ih =>
    obtain ⟨rfl, -⟩ := isPrefixOf_closing_iff.1 hmark
    exact ⟨ih.1, fun _ => rfl⟩
  | case4 c cs hmark ih =>
    -- what stands behind begins as it did in the text
    have hbegins : ¬['*', '/'].isPrefixOf
        (c :: Text.replaceFrom ['*', '/'] ['*', ' ', '/'] 0 cs) = true := by
      rwa [isPrefixOf_closing_iff, ih.2 rfl, ← isPrefixOf_closing_iff]
    exact ⟨Bool.or_eq_false_iff.2 ⟨Bool.eq_false_iff.2 hbegins, ih.1⟩, fun _ => rfl⟩

theorem occurs_comment_eq_false (s : String) :
    Text.occurs ['*', '/'] (comment s).toList = false := by
  rw [comment, Text.replaceAll, String.toList_ofList]
  exact (occurs_replaceFrom_eq_false 0 _).1

/-- A description leaves the reader inside of the comment that it is put into. -/
theorem skips_comment (s : String) :
    ∃ q : Reader, q.isInside = true ∧ Skips .block q (comment s) := by
  obtain ⟨hinside, hstrip⟩ := Reader.isInside_finish (q := .block) rfl (occurs_comment_eq_false s)
    (newline_not_mem_comment s) nofun
  exact ⟨_, hinside, rfl, hstrip⟩

theorem isInert_spaces (n : Nat) : IsInert (.ofList (List.replicate n ' ')) := by
  intro c hc
  rw [String.toList_ofList] at hc
  rw [(List.mem_replicate.1 hc).2]
  rfl

/-- Descriptions with spaces behind them are read alike inside of a comment. -/
theorem alike_padded (width : Nat) (s t : String) :
    Alike .block .block (Text.padEnd width (comment s) ++ " ")
      (Text.padEnd width (comment t) ++ " ") := by
  have hskips (s : String) : Skips .block .block (Text.padEnd width (comment s) ++ " ") := by
    obtain ⟨q, hinside, hcomment⟩ := skips_comment s
    have hspaces : Text.padEnd width (comment s) ++ " " = comment s ++ " " ++
        .ofList (List.replicate (width - (comment s).length) ' ') := by
      rw [Text.padEnd, String.append_assoc, String.append_assoc, ← String.toList_inj]
      simp [← List.replicate_succ, List.replicate_succ']
    rw [hspaces]
    exact (hcomment.append (Reader.skips_space hinside).1).append (isInert_spaces _).skips
  exact (hskips s).alike (hskips t)

/-- So are descriptions at the end of a line. -/
theorem alike_lines (s t : String) :
    Alike .block .block (comment s ++ "\n ") (comment t ++ "\n ") := by
  have hskips (s : String) : Skips .block .block (comment s ++ "\n ") := by
    obtain ⟨q, hinside, hcomment⟩ := skips_comment s
    exact hcomment.append (Reader.skips_space hinside).2
  exact (hskips s).alike (hskips t)

/-! ## Texts that do not touch comments -/

section Inert

variable {a b : String}

@[simp] theorem isInert_append : IsInert (a ++ b) ↔ IsInert a ∧ IsInert b := by
  simp only [IsInert, String.toList_append, List.forall_mem_append]

theorem IsInert.padEnd (h : IsInert a) (width : Nat) : IsInert (Text.padEnd width a) :=
  isInert_append.2 ⟨h, isInert_spaces _⟩

theorem IsInert.padStart (h : IsInert a) (width : Nat) : IsInert (Text.padStart width a) :=
  isInert_append.2 ⟨isInert_spaces _, h⟩

theorem isInert_of_mem {t : List Char} (hall : t.all isInert = true) (h : ∀ c ∈ a.toList, c ∈ t) :
    IsInert a :=
  fun c hc => List.all_eq_true.1 hall c (h c hc)

theorem isInert_toString (n : Nat) : IsInert (toString n) :=
  isInert_of_mem (by decide) fun _ => Numeral.mem_toString

theorem isInert_toString_int (n : Int) : IsInert (toString n) :=
  isInert_of_mem (by decide) fun _ => Numeral.mem_toString_int

theorem isInert_hex (n width : Nat) : IsInert (Text.hex n width) := by
  refine isInert_of_mem (t := "0123456789ABCDEF".toList) (by decide) fun c hc => ?_
  rw [Text.hex, Text.digits, String.toList_ofList, List.mem_append] at hc
  rcases hc with hc | hc
  · rw [(List.mem_replicate.1 hc).2]
    decide
  · exact Numeral.mem_hexDigits hc

theorem isInert_name (t : WordType) : IsInert t.name := by cases t <;> decide

end Inert

/-! ## Names -/

/-- ASCII letters and digits, and a few other characters. -/
def isOrdinary (c : Char) : Bool := c.isAlphanum || ['_', '.', ',', '@', '%', '[', ']'].contains c

/-- The text consists of ASCII letters, digits and a few other characters. -/
def IsOrdinary (a : String) : Prop := ∀ c ∈ a.toList, isOrdinary c = true

instance : DecidablePred IsOrdinary := fun a => List.decidableBAll (isOrdinary · = true) a.toList

theorem toNat_lt_of_isOrdinary {c : Char} (h : isOrdinary c = true) : c.toNat < 128 := by
  rcases Bool.or_eq_true_iff.1 h with h | h
  · delta Char.isAlphanum Char.isAlpha Char.isUpper Char.isLower Char.isDigit at h
    simp only [Bool.or_eq_true, Bool.and_eq_true, decide_eq_true_eq, UInt32.le_iff_toNat_le] at h
    change ((65 ≤ c.toNat ∧ c.toNat ≤ 90) ∨ (97 ≤ c.toNat ∧ c.toNat ≤ 122)) ∨
      (48 ≤ c.toNat ∧ c.toNat ≤ 57) at h
    omega
  · have hall : ∀ c ∈ ['_', '.', ',', '@', '%', '[', ']'], c.toNat < 128 := by simp
    exact hall c (by simpa using h)

/-- Ordinary characters are inert, and so are their capital and small letters. -/
theorem isInert_of_isOrdinary {c : Char} (h : isOrdinary c = true) :
    isInert c = true ∧ isInert c.toUpper = true ∧ isInert c.toLower = true := by
  have hall : ∀ n < 128, isOrdinary (Char.ofNat n) = true →
      isInert (Char.ofNat n) = true ∧ isInert (Char.ofNat n).toUpper = true ∧
        isInert (Char.ofNat n).toLower = true := by decide +kernel
  have hc := hall c.toNat (toNat_lt_of_isOrdinary h)
  rw [Char.ofNat_toNat] at hc
  exact hc h

namespace IsOrdinary

variable {a b : String}

theorem isInert (h : IsOrdinary a) : IsInert a := fun c hc => (isInert_of_isOrdinary (h c hc)).1

theorem upper (h : IsOrdinary a) : IsInert (Text.upper a) := by
  intro c hc
  rw [Text.upper, String.toList_ofList] at hc
  obtain ⟨d, hd, hc⟩ := List.mem_flatMap.1 hc
  have hd := h d hd
  rw [if_pos (toNat_lt_of_isOrdinary hd), List.mem_singleton] at hc
  rw [hc]
  exact (isInert_of_isOrdinary hd).2.1

theorem lower (h : IsOrdinary a) : IsInert (Text.lower a) := by
  suffices hcs : ∀ cs before : List Char, (∀ c ∈ cs, isOrdinary c = true) →
      ∀ c ∈ Text.lowerAfter before cs, CText.isInert c = true by
    intro c hc
    rw [Text.lower, String.toList_ofList] at hc
    exact hcs _ _ h c hc
  intro cs
  induction cs with
  | nil => exact fun _ _ => nofun
  | cons d cs ih =>
    intro before hall c hc
    obtain ⟨hd, hcs⟩ := List.forall_mem_cons.1 hall
    rw [Text.lowerAfter, if_pos (toNat_lt_of_isOrdinary hd), List.mem_append,
      List.mem_singleton] at hc
    rcases hc with rfl | hc
    · exact (isInert_of_isOrdinary hd).2.2
    · exact ih _ hcs c hc

theorem of_mem (h : IsOrdinary a) (hb : ∀ c ∈ b.toList, c ∈ a.toList) : IsOrdinary b :=
  fun c hc => h c (hb c hc)

theorem append (ha : IsOrdinary a) (hb : IsOrdinary b) : IsOrdinary (a ++ b) := by
  intro c hc
  rw [String.toList_append, List.mem_append] at hc
  exact hc.elim (ha c) (hb c)

theorem replaceAll {mark new : String} (h : IsOrdinary a) (hnew : IsOrdinary new) :
    IsOrdinary (Text.replaceAll mark new a) :=
  fun c hc => (Text.mem_replaceAll hc).elim (hnew c) (h c)

theorem trim (h : IsOrdinary a) : IsOrdinary (Text.trim a) := by
  refine h.of_mem fun c hc => ?_
  rw [Text.trim, Text.trimEnd, Text.trimStart, String.toList_ofList, String.toList_ofList,
    List.mem_reverse] at hc
  exact (List.dropWhile_suffix _).mem (List.mem_reverse.1 ((List.dropWhile_suffix _).mem hc))

theorem identifier (h : IsOrdinary a) : IsOrdinary (CText.identifier a) := by
  have hcs : ∀ c ∈ a.toList.map (fun c => if isForeign c then '_' else c),
      isOrdinary c = true := by
    intro c hc
    obtain ⟨d, hd, rfl⟩ := List.mem_map.1 hc
    split
    · rfl
    · exact h d hd
  unfold CText.identifier IsOrdinary
  simp only
  split
  · rw [String.toList_ofList]
    exact List.forall_mem_cons.2 ⟨rfl, hcs⟩
  · split <;> rw [String.toList_ofList]
    · exact List.forall_mem_append.2 ⟨hcs, List.forall_mem_singleton.2 rfl⟩
    · exact hcs

end IsOrdinary

end CText

/-! ## Renamings -/

/-- The template consists of groups only. -/
def Template.isBare (t : Template) : Bool := t.all fun
  | .text _ => false
  | .group _ => true

theorem Template.mem_fill {t : Template} {gs : Pattern.Groups} {c : Char} (ht : t.isBare = true)
    (h : c ∈ (t.fill gs).toList) : ∃ g ∈ gs, c ∈ g.2 := by
  rw [fill, String.toList_ofList] at h
  obtain ⟨piece, hpiece, hc⟩ := List.mem_flatMap.1 h
  cases piece with
  | text s => cases List.all_eq_true.1 ht _ hpiece
  | group n =>
    simp only at hc
    cases hlookup : gs.lookup n with
    | none =>
      rw [hlookup] at hc
      cases hc
    | some s =>
      rw [hlookup] at hc
      obtain ⟨before, after, rfl, -⟩ := List.lookup_eq_some_iff.1 hlookup
      exact ⟨(n, s), by simp, hc⟩

/-- A renaming by groups only brings no characters in. -/
theorem Renaming.mem_rename {table : List Renaming} {name : String} {c : Char}
    (htable : (table.all fun r => r.template.isBare) = true) (h : c ∈ (rename table name).toList) :
    c ∈ name.toList := by
  unfold rename at h
  cases hfirst : first? table name with
  | none =>
    rw [hfirst] at h
    exact h
  | some s =>
    rw [hfirst] at h
    obtain ⟨r, hr, hs⟩ := List.exists_of_findSome?_eq_some hfirst
    obtain ⟨gs, hgs, rfl⟩ := Option.map_eq_some_iff.1 hs
    obtain ⟨g, hg, hc⟩ := Template.mem_fill (List.all_eq_true.1 htable r hr) h
    exact (Pattern.parses_of_groups? hgs).mem_of_mem_groups hg hc

end RegisterMap
