import RegisterMap.Proofs.Text
import RegisterMap.Xml.Character

/-!
# Escapes and references

A text that is written with escapes is read as it was (`text?_escape`), and so is the value of an
attribute (`value?_escape`). A text must not hold a carriage return, which would be read as a line
end, nor a value any white space but spaces.
-/

namespace RegisterMap.Xml

variable {c : Char} {s rest : List Char}

/-! ## References -/

/-- A character as the writer of texts spells it. -/
def textGlyph (c : Char) : Glyph :=
  if c = '&' ∨ c = '<' ∨ c = '>' then .referred c else .plain c

/-- A character as the writer of values spells it. -/
def valueGlyph (c : Char) : Glyph := if c = '"' then .referred c else textGlyph c

theorem glyphs?_cons_plain (h : c ≠ '&') :
    glyphs? (c :: rest) = (glyphs? rest).map (.plain c :: ·) := by
  rw [glyphs?]
  simp [h]

/-- A reference by name is the character that it stands for. -/
theorem glyphs?_reference (name : List Char) (hname : ';' ∉ name)
    (hchar : reference? name = some c) :
    glyphs? ('&' :: (name ++ ';' :: rest)) = (glyphs? rest).map (.referred c :: ·) := by
  have hbefore : ∀ x ∈ name, (x != ';') = true := fun x hx =>
    bne_iff_ne.2 fun e => hname (e ▸ hx)
  have htake : (name ++ ';' :: rest).takeWhile (· != ';') = name := by
    rw [List.takeWhile_append_of_pos hbefore]
    simp
  have hafter : afterReference (name ++ ';' :: rest) = rest := by
    rw [afterReference, List.dropWhile_append_of_pos hbefore]
    simp
  have hmark : (name ++ ';' :: rest).contains ';' = true := by simp
  rw [glyphs?, htake, hchar, hafter, if_pos hmark]
  simp

theorem glyphs?_escapeText (c : Char) (rest : List Char) :
    glyphs? (escapeText c ++ rest) = (glyphs? rest).map (textGlyph c :: ·) := by
  unfold escapeText textGlyph
  by_cases hamp : c = '&'
  · subst hamp
    exact glyphs?_reference "amp".toList (by decide) (by decide)
  by_cases hlt : c = '<'
  · subst hlt
    exact glyphs?_reference "lt".toList (by decide) (by decide)
  by_cases hgt : c = '>'
  · subst hgt
    exact glyphs?_reference "gt".toList (by decide) (by decide)
  simpa [hamp, hlt, hgt] using glyphs?_cons_plain hamp

theorem glyphs?_escapeValue (c : Char) (rest : List Char) :
    glyphs? (escapeValue c ++ rest) = (glyphs? rest).map (valueGlyph c :: ·) := by
  unfold escapeValue valueGlyph
  by_cases hquote : c = '"'
  · subst hquote
    exact glyphs?_reference "quot".toList (by decide) (by decide)
  · simpa [hquote] using glyphs?_escapeText c rest

theorem glyphs?_flatMap {escape : Char → List Char} {glyph : Char → Glyph}
    (h : ∀ c rest, glyphs? (escape c ++ rest) = (glyphs? rest).map (glyph c :: ·))
    (s : List Char) : glyphs? (s.flatMap escape) = some (s.map glyph) := by
  induction s with
  | nil => rw [List.flatMap_nil, glyphs?, List.map_nil]
  | cons c cs ih => rw [List.flatMap_cons, h, ih, Option.map_some, List.map_cons]

/-! ## Texts and values -/

theorem lineEnds_map_textGlyph (h : '\r' ∉ s) (behindReference : Bool) :
    lineEnds behindReference (s.map textGlyph) = s := by
  induction s generalizing behindReference with
  | nil => rfl
  | cons c cs ih =>
    rw [List.mem_cons, not_or] at h
    have hc : c ≠ '\r' := fun e => h.1 e.symm
    rw [List.map_cons, textGlyph]
    split
    · rw [lineEnds, ih h.2]
    · rw [lineEnds.eq_def]
      simp [hc, ih h.2]

theorem text?_escape (h : '\r' ∉ s) : text? (s.flatMap escapeText) = some (.ofList s) := by
  rw [text?, glyphs?_flatMap glyphs?_escapeText, Option.map_some, lineEnds_map_textGlyph h]

theorem spaced_map_valueGlyph (h : ∀ c ∈ s, isSpace c = true → c = ' ') :
    spaced (s.map valueGlyph) = s := by
  induction s with
  | nil => rfl
  | cons c cs ih =>
    obtain ⟨hc, hcs⟩ := List.forall_mem_cons.1 h
    have hother : c ≠ '\r' := by
      rintro rfl
      exact absurd (hc (by decide)) (by decide)
    have hspace : (if isSpace c then ' ' else c) = c := by
      split
      · rename_i hs
        exact (hc hs).symm
      · rfl
    rw [List.map_cons, valueGlyph, textGlyph]
    split
    · rw [spaced, ih hcs]
    · split
      · rw [spaced, ih hcs]
      · rw [spaced, hspace, ih hcs]
        simp [hother]

theorem value?_escape (h : ∀ c ∈ s, isSpace c = true → c = ' ') :
    value? (s.flatMap escapeValue) = some (.ofList s) := by
  rw [value?, glyphs?_flatMap glyphs?_escapeValue, Option.map_some, spaced_map_valueGlyph h]

/-! ## What escapes hold -/

/-- A character of an escape is the character itself or one of those that references consist of. -/
theorem mem_escapeText {m : Char} (h : m ∈ escapeText c) :
    (m = c ∧ c ≠ '<' ∧ c ≠ '>') ∨ m ∈ "&;ampltg".toList := by
  unfold escapeText at h
  split at h
  · exact .inr (Text.mem_of_all (by decide : "&amp;".toList.all _ = true) h)
  split at h
  · exact .inr (Text.mem_of_all (by decide : "&lt;".toList.all _ = true) h)
  split at h
  · exact .inr (Text.mem_of_all (by decide : "&gt;".toList.all _ = true) h)
  · rename_i hlt hgt
    exact .inl ⟨List.mem_singleton.1 h, by simpa using hlt, by simpa using hgt⟩

theorem mem_escapeValue {m : Char} (h : m ∈ escapeValue c) :
    (m = c ∧ c ≠ '<' ∧ c ≠ '"') ∨ m ∈ "&;ampltgquo".toList := by
  unfold escapeValue at h
  split at h
  · exact .inr (Text.mem_of_all (by decide : "&quot;".toList.all _ = true) h)
  · rename_i hquote
    rcases mem_escapeText h with ⟨hm, hlt, -⟩ | hm
    · exact .inl ⟨hm, hlt, by simpa using hquote⟩
    · exact .inr (Text.mem_of_all (by decide) hm)

theorem not_mem_escapedText {m : Char} (hm : m = '<' ∨ m = '>') : m ∉ s.flatMap escapeText := by
  rw [List.mem_flatMap]
  rintro ⟨c, -, hc⟩
  rcases mem_escapeText hc with ⟨rfl, hlt, hgt⟩ | hc
  · exact hm.elim hlt hgt
  · rcases hm with rfl | rfl <;> exact absurd hc (by decide)

theorem not_mem_escapedValue {m : Char} (hm : m = '<' ∨ m = '"') :
    m ∉ s.flatMap escapeValue := by
  rw [List.mem_flatMap]
  rintro ⟨c, -, hc⟩
  rcases mem_escapeValue hc with ⟨rfl, hlt, hquote⟩ | hc
  · exact hm.elim hlt hquote
  · rcases hm with rfl | rfl <;> exact absurd hc (by decide)

theorem all_isAllowed_escapedText (h : s.all isAllowed = true) :
    (s.flatMap escapeText).all isAllowed = true := by
  refine List.all_eq_true.2 fun m hm => ?_
  obtain ⟨c, hc, hm⟩ := List.mem_flatMap.1 hm
  rcases mem_escapeText hm with ⟨rfl, -⟩ | hm
  · exact List.all_eq_true.1 h _ hc
  · exact List.all_eq_true.1 (by decide : "&;ampltg".toList.all isAllowed = true) m hm

theorem all_isAllowed_escapedValue (h : s.all isAllowed = true) :
    (s.flatMap escapeValue).all isAllowed = true := by
  refine List.all_eq_true.2 fun m hm => ?_
  obtain ⟨c, hc, hm⟩ := List.mem_flatMap.1 hm
  rcases mem_escapeValue hm with ⟨rfl, -⟩ | hm
  · exact List.all_eq_true.1 h _ hc
  · exact List.all_eq_true.1 (by decide : "&;ampltgquo".toList.all isAllowed = true) m hm

end RegisterMap.Xml
