import RegisterMap.Placeholder

/-!
# One placeholder

A text with one placeholder has one place for an index (`eq_of_append_mark`), and filling it puts
the index there (`fill_eq`). A text that loses its beginning but no placeholder still has one, or
ends in one, if it did (`isIn_drop`, `isLast_drop`).
-/

namespace RegisterMap.Placeholder

open Text

theorem occurs_iff_infix (mark s : List Char) : occurs mark s = true ↔ mark <:+: s := by
  induction s with
  | nil => simp [occurs]
  | cons c cs ih =>
    rw [occurs, Bool.or_eq_true, ih, List.isPrefixOf_iff_prefix, List.infix_cons_iff]

theorem isIn_eq_false {s : String} : isIn s = false ↔ ¬mark <:+: s.toList := by
  rw [isIn, ← Bool.not_eq_true, occurs_iff_infix]

/-- The mark does not begin in a text without marks and end behind it. -/
theorem mark_not_begins {c : Char} {a b : List Char} (ha : ¬mark <:+: c :: a) :
    ¬mark <+: c :: (a ++ mark ++ b) := by
  rintro ⟨t, ht⟩
  cases a with
  | nil => simp [mark] at ht
  | cons d a =>
    simp only [mark, List.cons_append, List.nil_append, List.cons.injEq] at ht
    obtain ⟨rfl, rfl, -⟩ := ht
    exact ha ⟨[], a, rfl⟩

theorem not_infix_tail {c : Char} {a : List Char} (ha : ¬mark <:+: c :: a) : ¬mark <:+: a :=
  fun h => ha (h.trans (List.suffix_cons c a).isInfix)

/-- A text with one mark is divided by a mark in one way only. -/
theorem eq_of_append_mark {a b a' b' : List Char} (ha : ¬mark <:+: a) (hb : ¬mark <:+: b)
    (h : a ++ mark ++ b = a' ++ mark ++ b') : a = a' ∧ b = b' := by
  induction a generalizing a' with
  | nil =>
    match a' with
    | [] => exact ⟨rfl, List.append_cancel_left h⟩
    | [c] => simp [mark] at h
    | c :: d :: a' =>
      -- the other mark would lie behind this one
      simp only [mark, List.cons_append, List.nil_append, List.cons.injEq] at h
      exact absurd ⟨a', b', h.2.2.symm⟩ hb
  | cons c a ih =>
    match a' with
    | [] => exact absurd ⟨b', h.symm⟩ (mark_not_begins ha)
    | d :: a' =>
      obtain ⟨rfl, htail⟩ := List.cons.inj h
      obtain ⟨rfl, rfl⟩ := ih (not_infix_tail ha) htail
      exact ⟨rfl, rfl⟩

/-! ## Filling -/

theorem replaceFrom_unmarked {new s : List Char} (h : ¬mark <:+: s) :
    replaceFrom mark new 0 s = s := by
  induction s with
  | nil => rfl
  | cons c cs ih =>
    have hprefix : ¬mark.isPrefixOf (c :: cs) = true := fun hp =>
      h (List.isPrefixOf_iff_prefix.1 hp).isInfix
    rw [replaceFrom, if_neg hprefix, ih (not_infix_tail h)]

theorem replaceFrom_append {new a b : List Char} (ha : ¬mark <:+: a) (hb : ¬mark <:+: b) :
    replaceFrom mark new 0 (a ++ mark ++ b) = a ++ new ++ b := by
  induction a with
  | nil =>
    show new ++ replaceFrom mark new 0 b = [] ++ new ++ b
    rw [replaceFrom_unmarked hb, List.nil_append]
  | cons c a ih =>
    have hprefix : ¬mark.isPrefixOf (c :: (a ++ mark ++ b)) = true := fun hp =>
      mark_not_begins ha (List.isPrefixOf_iff_prefix.1 hp)
    show replaceFrom mark new 0 (c :: (a ++ mark ++ b)) = c :: (a ++ new ++ b)
    rw [replaceFrom, if_neg hprefix, ih (not_infix_tail ha)]

/-- Filling the only placeholder of a text puts the index in its place. -/
theorem fill_eq {s t : String} {a b : List Char} (index : String) (hs : s.toList = a ++ mark ++ b)
    (ha : ¬mark <:+: a) (hb : ¬mark <:+: b) (ht : t.toList = a ++ index.toList ++ b) :
    fill index s = t := by
  rw [fill, replaceAll, hs]
  show String.ofList (replaceFrom mark index.toList 0 (a ++ mark ++ b)) = t
  rw [replaceFrom_append ha hb, ← ht, String.ofList_toList]

/-! ## Texts without their beginning -/

/-- No mark begins with the second character of a mark. -/
theorem occurrences_cons_s (cs : List Char) :
    occurrences mark 0 ('s' :: cs) = occurrences mark 0 cs := by
  rw [occurrences, if_neg]
  simp [mark]

theorem occurrences_le_append (a b : List Char) :
    occurrences mark 0 b ≤ occurrences mark 0 (a ++ b) := by
  induction hn : a.length using Nat.strongRecOn generalizing a with
  | ind n ih =>
    subst hn
    match a with
    | [] => exact Nat.le_refl _
    | c :: a =>
      rw [List.cons_append, occurrences]
      split
      · rename_i hprefix
        obtain ⟨rest, hrest⟩ := List.isPrefixOf_iff_prefix.1 hprefix
        simp only [mark, List.cons_append, List.nil_append, List.cons.injEq] at hrest
        obtain ⟨-, hrest⟩ := hrest
        match a with
        | [] =>
          rw [List.nil_append] at hrest ⊢
          rw [← hrest, occurrences_cons_s]
          exact Nat.le_succ _
        | d :: a =>
          exact Nat.le_succ_of_le (ih a.length (by simp only [List.length_cons]; omega) a rfl)
      · exact ih a.length (by simp) a rfl

/-- A text has one mark less without a beginning that a mark begins with. -/
theorem occurrences_lt_append {c : Char} {a b : List Char} (h : mark <+: c :: (a ++ b)) :
    occurrences mark 0 b < occurrences mark 0 (c :: (a ++ b)) := by
  rw [occurrences, if_pos (List.isPrefixOf_iff_prefix.2 h)]
  obtain ⟨rest, hrest⟩ := h
  simp only [mark, List.cons_append, List.nil_append, List.cons.injEq] at hrest
  obtain ⟨-, hrest⟩ := hrest
  cases a with
  | nil =>
    rw [List.nil_append] at hrest ⊢
    rw [← hrest, occurrences_cons_s]
    exact Nat.lt_succ_self _
  | cons d a => exact Nat.lt_succ_of_le (occurrences_le_append a b)

/-- When a text has as many marks without its beginning, no mark begins there. -/
theorem length_le_of_occurrences_eq {a b x y : List Char}
    (h : occurrences mark 0 b = occurrences mark 0 (a ++ b)) (hmark : a ++ b = x ++ mark ++ y) :
    a.length ≤ x.length := by
  induction a generalizing x with
  | nil => exact Nat.zero_le _
  | cons c a ih =>
    rw [List.cons_append] at h hmark
    have hprefix : ¬mark <+: c :: (a ++ b) := fun hprefix =>
      absurd h (Nat.ne_of_lt (occurrences_lt_append hprefix))
    cases x with
    | nil => exact absurd ⟨y, hmark.symm⟩ hprefix
    | cons d x =>
      rw [occurrences, if_neg fun hp => hprefix (List.isPrefixOf_iff_prefix.1 hp)] at h
      exact Nat.succ_le_succ (ih h (List.cons.inj hmark).2)

/-- All marks are then in the rest of the text. -/
theorem eq_append_of_occurrences_eq {a b x y : List Char}
    (h : occurrences mark 0 b = occurrences mark 0 (a ++ b)) (hmark : a ++ b = x ++ mark ++ y) :
    ∃ z, x = a ++ z ∧ b = z ++ mark ++ y := by
  have hprefix : a <+: x :=
    List.prefix_of_prefix_length_le ⟨b, rfl⟩ ⟨mark ++ y, by rw [hmark, List.append_assoc]⟩
      (length_le_of_occurrences_eq h hmark)
  obtain ⟨z, rfl⟩ := hprefix
  refine ⟨z, rfl, ?_⟩
  rw [List.append_assoc, List.append_assoc] at hmark
  rw [List.append_cancel_left hmark, List.append_assoc]

section Drop

variable {s t : String} {n : Nat}

theorem eq_take_append (ht : t.toList = s.toList.drop n) :
    s.toList = s.toList.take n ++ t.toList := by
  rw [ht, List.take_append_drop]

theorem occurrences_eq_of_count_eq (ht : t.toList = s.toList.drop n) (h : count t = count s) :
    occurrences mark 0 t.toList = occurrences mark 0 (s.toList.take n ++ t.toList) := by
  rw [← eq_take_append ht]
  exact h

theorem isIn_drop (ht : t.toList = s.toList.drop n) (h : count t = count s) :
    isIn t = isIn s := by
  rw [Bool.eq_iff_iff, isIn, isIn, occurs_iff_infix, occurs_iff_infix]
  constructor
  · intro hin
    rw [eq_take_append ht]
    exact hin.trans (List.suffix_append _ _).isInfix
  · rintro ⟨x, y, hxy⟩
    rw [eq_take_append ht] at hxy
    obtain ⟨z, -, hz⟩ := eq_append_of_occurrences_eq (occurrences_eq_of_count_eq ht h) hxy.symm
    exact ⟨z, y, hz.symm⟩

/-- The bracket in front of a placeholder stays when the text does not begin with one. -/
theorem isLast_drop (ht : t.toList = s.toList.drop n) (h : count t = count s)
    (hhead : t.toList.head? ≠ some '%') : isLast t = isLast s := by
  have hcount := occurrences_eq_of_count_eq ht h
  rw [Bool.eq_iff_iff, isLast, isLast, Bool.or_eq_true, Bool.or_eq_true,
    List.isSuffixOf_iff_suffix, List.isSuffixOf_iff_suffix, List.isSuffixOf_iff_suffix,
    List.isSuffixOf_iff_suffix]
  constructor
  · rw [eq_take_append ht]
    exact Or.imp (fun hlast => hlast.trans (List.suffix_append _ _))
      fun hlast => hlast.trans (List.suffix_append _ _)
  · rw [eq_take_append ht]
    rintro (⟨x, hx⟩ | ⟨x, hx⟩)
    · obtain ⟨z, -, hz⟩ := eq_append_of_occurrences_eq (x := x) (y := []) hcount
        (by rw [← hx, List.append_nil])
      exact .inl ⟨z, by rw [hz, List.append_nil]⟩
    · obtain ⟨z, hxz, hz⟩ := eq_append_of_occurrences_eq (x := x ++ ['[']) (y := [']']) hcount
        (by rw [← hx]; simp [mark])
      rcases List.eq_nil_or_concat z with rfl | ⟨w, c, rfl⟩
      · simp [hz, mark] at hhead
      · rw [List.concat_eq_append, ← List.append_assoc] at hxz
        obtain ⟨-, hc⟩ := List.append_inj' hxz rfl
        cases List.cons.inj hc |>.1
        exact .inr ⟨w, by rw [hz]; simp [mark]⟩

end Drop

end RegisterMap.Placeholder
