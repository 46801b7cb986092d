import RegisterMap.Text.Edit

/-!
# Trimmed texts and their parts

What trimming takes away from a text (`trim_eq_iff`) and when it leaves it alone (`IsTrimmed`), and
what a list of texts is read as that has been written with separators between its members
(`parts_intercalate`). The text of lines is that of one after the other (`ended`).
-/

namespace RegisterMap.Text

variable {s : List Char} {c sep : Char}

/-! ## Trimming -/

/-- The characters neither begin nor end with a blank. -/
def IsTrimmed (s : List Char) : Prop :=
  s.head?.all (!isBlank ·) = true ∧ s.getLast?.all (!isBlank ·) = true

instance : DecidablePred IsTrimmed := fun _ => inferInstanceAs (Decidable (_ ∧ _))

/-- A character of a text that consists of given characters is one of these. -/
theorem mem_of_all {t : List Char} {c : Char} (hall : s.all t.contains = true) (h : c ∈ s) :
    c ∈ t :=
  List.contains_iff_mem.1 (List.all_eq_true.1 hall c h)

theorem eq_false_of_all {p : Char → Bool} {c : Char} (hall : s.all (!p ·) = true) (h : c ∈ s) :
    p c = false := by
  simpa using List.all_eq_true.1 hall c h

theorem dropWhile_isBlank_eq_self_iff :
    s.dropWhile isBlank = s ↔ s.head?.all (!isBlank ·) = true := by
  cases s with
  | nil => simp
  | cons c cs =>
    by_cases hc : isBlank c
    · have hne : cs.dropWhile isBlank ≠ c :: cs := fun h => by
        have := (cs.dropWhile_suffix isBlank).length_le
        rw [h, List.length_cons] at this
        omega
      simp [hc, hne]
    · simp [hc]

theorem head?_dropWhile_isBlank (s : List Char) :
    (s.dropWhile isBlank).head?.all (!isBlank ·) = true := by
  have h := List.head?_dropWhile_not isBlank s
  cases hs : (s.dropWhile isBlank).head? with
  | none => rfl
  | some c => simpa [hs] using h

theorem toList_trim (t : String) :
    (trim t).toList = ((t.toList.dropWhile isBlank).reverse.dropWhile isBlank).reverse := by
  simp only [trim, trimEnd, trimStart, String.toList_ofList]

theorem isTrimmed_trim (t : String) : IsTrimmed (trim t).toList := by
  rw [toList_trim]
  have hstart := head?_dropWhile_isBlank t.toList
  generalize t.toList.dropWhile isBlank = s at hstart
  constructor
  · -- what is left of a text whose end is taken away begins as the text does
    obtain ⟨rest, hrest⟩ := List.dropWhile_suffix isBlank (l := s.reverse)
    have hs : s = (s.reverse.dropWhile isBlank).reverse ++ rest.reverse := by
      rw [← List.reverse_append, hrest, List.reverse_reverse]
    cases hleft : (s.reverse.dropWhile isBlank).reverse with
    | nil => rfl
    | cons c cs =>
      rw [hs, hleft] at hstart
      exact hstart
  · rw [List.getLast?_reverse]
    exact head?_dropWhile_isBlank s.reverse

/-- Trimming takes away the blanks around a trimmed text, and nothing else. -/
theorem trim_eq_iff {s t : String} : trim s = t ↔ IsTrimmed t.toList ∧
    ∃ before after, s.toList = before ++ t.toList ++ after ∧
      ∀ c ∈ before ++ after, isBlank c = true := by
  constructor
  · rintro rfl
    let rest := s.toList.dropWhile isBlank
    have hsplit (l : List Char) : l.takeWhile isBlank ++ l.dropWhile isBlank = l :=
      List.takeWhile_append_dropWhile
    have hrest : (trim s).toList ++ (rest.reverse.takeWhile isBlank).reverse = rest := by
      rw [toList_trim, ← List.reverse_append, hsplit, List.reverse_reverse]
    refine ⟨isTrimmed_trim s, s.toList.takeWhile isBlank,
      (rest.reverse.takeWhile isBlank).reverse, ?_, fun c hc => ?_⟩
    · rw [List.append_assoc, hrest, hsplit]
    · rw [List.mem_append, List.mem_reverse] at hc
      exact hc.elim (List.all_eq_true.1 List.all_takeWhile c)
        (List.all_eq_true.1 List.all_takeWhile c)
  · rintro ⟨⟨hhead, hlast⟩, before, after, hs, hblank⟩
    obtain ⟨hbefore, hafter⟩ := List.forall_mem_append.1 hblank
    rw [← String.toList_inj, toList_trim, hs, List.append_assoc,
      List.dropWhile_append_of_pos hbefore]
    cases ht : t.toList with
    | nil =>
      have hnone : (after ++ []).dropWhile isBlank = [] := List.dropWhile_append_of_pos hafter
      rw [List.append_nil] at hnone
      simp [hnone]
    | cons c cs =>
      rw [ht] at hhead hlast
      have hstart : (c :: cs ++ after).dropWhile isBlank = c :: cs ++ after :=
        dropWhile_isBlank_eq_self_iff.2 hhead
      have hend : (c :: cs).reverse.dropWhile isBlank = (c :: cs).reverse := by
        rw [dropWhile_isBlank_eq_self_iff, List.head?_reverse]
        exact hlast
      rw [hstart, List.reverse_append,
        List.dropWhile_append_of_pos fun c hc => hafter c (List.mem_reverse.1 hc), hend,
        List.reverse_reverse]

/-- Trimming leaves exactly those texts alone that neither begin nor end with a blank. -/
theorem trim_eq_self_iff {t : String} : trim t = t ↔ IsTrimmed t.toList :=
  ⟨fun h => h ▸ isTrimmed_trim t, fun h => trim_eq_iff.2 ⟨h, [], [], by simp, nofun⟩⟩

theorem trim_trim (t : String) : trim (trim t) = trim t := trim_eq_self_iff.2 (isTrimmed_trim t)

theorem isTrimmed_of_forall (h : ∀ c ∈ s, isBlank c = false) : IsTrimmed s := by
  constructor
  · cases hs : s.head? with
    | none => rfl
    | some c => simpa using h c (List.mem_of_mem_head? hs)
  · cases hs : s.getLast? with
    | none => rfl
    | some c => simpa using h c (List.mem_of_mem_getLast? hs)

/-- Between trimmed texts that are not empty there may be anything. -/
theorem IsTrimmed.append_append {t : List Char} (hs : IsTrimmed s) (hsne : s ≠ [])
    (ht : IsTrimmed t) (htne : t ≠ []) (u : List Char) : IsTrimmed (s ++ u ++ t) := by
  obtain ⟨c, cs, rfl⟩ := List.exists_cons_of_ne_nil hsne
  constructor
  · simpa using hs.1
  · rw [List.getLast?_append]
    cases h : t.getLast? with
    | none => exact absurd (List.getLast?_eq_none_iff.1 h) htne
    | some c => simpa [h] using ht.2

/-- Trimmed texts that are not empty are a trimmed text, whatever is between them. -/
theorem isTrimmed_intercalate_of_ne_nil {sep : List Char} {xs : List (List Char)}
    (h : ∀ x ∈ xs, x ≠ [] ∧ IsTrimmed x) : IsTrimmed (sep.intercalate xs) := by
  induction xs with
  | nil => exact ⟨rfl, rfl⟩
  | cons x xs ih =>
    obtain ⟨⟨hne, hx⟩, hxs⟩ := List.forall_mem_cons.1 h
    cases xs with
    | nil => rwa [List.intercalate_singleton]
    | cons y ys =>
      rw [List.intercalate_cons_cons]
      refine hx.append_append hne (ih hxs) (fun he => ?_) sep
      obtain ⟨c, cs, rfl⟩ := List.exists_cons_of_ne_nil (hxs y List.mem_cons_self).1
      cases ys <;> simp [List.intercalate_cons_cons] at he

/-- Trimming takes away blanks only. -/
theorem mem_trim (hc : isBlank c = false) (h : c ∈ s) : c ∈ (trim (.ofList s)).toList := by
  obtain ⟨-, before, after, hs, hblank⟩ := trim_eq_iff.1 (rfl : trim (.ofList s) = _)
  rw [String.toList_ofList] at hs
  rw [hs, List.append_assoc, List.mem_append, List.mem_append] at h
  rw [List.forall_mem_append] at hblank
  rcases h with h | h | h
  · rw [hblank.1 c h] at hc
    cases hc
  · exact h
  · rw [hblank.2 c h] at hc
    cases hc

/-- A blank in front of a trimmed text is taken away. -/
theorem trim_cons_blank (hc : isBlank c = true) (h : IsTrimmed s) :
    trim (.ofList (c :: s)) = .ofList s :=
  trim_eq_iff.2 ⟨by simpa using h, [c], [], by simp, by simpa using hc⟩

/-- A blank behind a trimmed text is taken away. -/
theorem trim_concat_blank (hc : isBlank c = true) (h : IsTrimmed s) :
    trim (.ofList (s ++ [c])) = .ofList s :=
  trim_eq_iff.2 ⟨by simpa using h, [], [c], by simp, by simpa using hc⟩

theorem IsTrimmed.append {t : List Char} (hs : IsTrimmed s) (ht : IsTrimmed t) :
    IsTrimmed (s ++ t) := by
  constructor
  · rw [List.head?_append]
    cases h : s.head? with
    | none => exact ht.1
    | some c => simpa [h] using hs.1
  · rw [List.getLast?_append]
    cases h : t.getLast? with
    | none => exact hs.2
    | some c => simpa [h] using ht.2

/-- Trimmed texts after a separator that is no blank are a trimmed text. -/
theorem isTrimmed_intercalate {xs : List (List Char)} (hsep : isBlank sep = false)
    (h : ∀ x ∈ xs, IsTrimmed x) : IsTrimmed ([sep].intercalate xs) := by
  have hseparator : IsTrimmed [sep] := by simp [IsTrimmed, hsep]
  induction xs with
  | nil => exact ⟨rfl, rfl⟩
  | cons x xs ih =>
    obtain ⟨hx, hxs⟩ := List.forall_mem_cons.1 h
    cases xs with
    | nil => rwa [List.intercalate_singleton]
    | cons y ys =>
      rw [List.intercalate_cons_cons]
      exact (hx.append hseparator).append (ih hxs)

/-! ## Parts -/

/-- The characters of a list of texts are those of its members and of what is between them. -/
theorem mem_intercalate {sep : List Char} {xs : List (List Char)} (h : c ∈ sep.intercalate xs) :
    c ∈ sep ∨ ∃ x ∈ xs, c ∈ x := by
  induction xs with
  | nil => cases h
  | cons x xs ih =>
    cases xs with
    | nil =>
      rw [List.intercalate_singleton] at h
      exact .inr ⟨x, List.mem_cons_self, h⟩
    | cons y ys =>
      rw [List.intercalate_cons_cons, List.mem_append, List.mem_append] at h
      rcases h with (h | h) | h
      · exact .inr ⟨x, List.mem_cons_self, h⟩
      · exact .inl h
      · exact (ih h).imp_right fun ⟨z, hz, hc⟩ => ⟨z, List.mem_cons_of_mem _ hz, hc⟩

/-- There is no separator in a part. -/
theorem not_mem_of_mem_parts : ∀ t ∈ parts sep s, sep ∉ t := by
  induction s with
  | nil => simp [parts]
  | cons c cs ih =>
    rw [parts]
    split
    · exact List.forall_mem_cons.2 ⟨List.not_mem_nil, ih⟩
    · rename_i hc
      cases hparts : parts sep cs with
      | nil => simpa [lead] using fun h => hc (beq_iff_eq.2 h.symm)
      | cons w ws =>
        rw [hparts] at ih
        obtain ⟨hw, hws⟩ := List.forall_mem_cons.1 ih
        refine List.forall_mem_cons.2 ⟨fun h => ?_, hws⟩
        rcases List.mem_cons.1 h with rfl | h
        · exact hc (beq_self_eq_true _)
        · exact hw h

theorem parts_of_not_mem (h : sep ∉ s) : parts sep s = [s] := by
  induction s with
  | nil => rfl
  | cons c cs ih =>
    rw [List.mem_cons, not_or] at h
    have hc : (c == sep) = false := beq_false_of_ne fun e => h.1 e.symm
    rw [parts, hc, if_neg Bool.false_ne_true, ih h.2]
    rfl

theorem parts_append (h : sep ∉ s) (rest : List Char) :
    parts sep (s ++ sep :: rest) = s :: parts sep rest := by
  induction s with
  | nil => simp [parts]
  | cons c cs ih =>
    rw [List.mem_cons, not_or] at h
    have hc : (c == sep) = false := beq_false_of_ne fun e => h.1 e.symm
    rw [List.cons_append, parts, hc, if_neg Bool.false_ne_true, ih h.2]
    rfl

/-- A list that is written with a separator between its members, perhaps with more behind it, has
the members as its parts, all but the first with what is behind the separator. -/
theorem parts_intercalate (pad : List Char) {x : List Char} {xs : List (List Char)}
    (hpad : sep ∉ pad) (hx : sep ∉ x) (hxs : ∀ y ∈ xs, sep ∉ y) :
    parts sep ((sep :: pad).intercalate (x :: xs)) = x :: xs.map (pad ++ ·) := by
  induction xs generalizing x with
  | nil =>
    rw [List.intercalate_singleton]
    exact parts_of_not_mem hx
  | cons y ys ih =>
    obtain ⟨hy, hys⟩ := List.forall_mem_cons.1 hxs
    rw [List.intercalate_cons_cons, List.append_assoc, List.cons_append, parts_append hx]
    have hrest : pad ++ (sep :: pad).intercalate (y :: ys) =
        (sep :: pad).intercalate ((pad ++ y) :: ys) := by
      cases ys with
      | nil => simp
      | cons z zs => simp [List.intercalate_cons_cons]
    have hpady : sep ∉ pad ++ y := fun hm => (List.mem_append.1 hm).elim hpad hy
    rw [hrest, ih hpady hys, List.map_cons]

/-! ## Lines -/

/-- The text of lines, each of them ended. -/
def ended (ls : List String) : String := String.join (ls.map (· ++ "\n"))

@[simp] theorem ended_nil : ended [] = "" := rfl

@[simp] theorem ended_cons (l : String) (ls : List String) :
    ended (l :: ls) = l ++ "\n" ++ ended ls := by
  rw [ended, List.map_cons, String.join_cons, ended]

@[simp] theorem ended_append (ls ms : List String) : ended (ls ++ ms) = ended ls ++ ended ms := by
  rw [ended, List.map_append, String.join_append, ended, ended]

end RegisterMap.Text
