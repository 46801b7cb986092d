import RegisterMap.Text.Blank

/-!
# Edits

Replacing and cutting texts at fixed marks, and padding them to a number of columns. A column is
one character, whatever its width on a screen.
-/

namespace RegisterMap.Text

/-- Replaces from the left; the first `skip` characters belong to a mark already replaced. -/
def replaceFrom (mark new : List Char) : Nat → List Char → List Char
  | _, [] => []
  | skip + 1, _ :: cs => replaceFrom mark new skip cs
  | 0, c :: cs =>
    if mark.isPrefixOf (c :: cs) then new ++ replaceFrom mark new (mark.length - 1) cs
    else c :: replaceFrom mark new 0 cs

/-- The text with every occurrence of a nonempty mark replaced, from the left and not
overlapping. -/
def replaceAll (mark new s : String) : String :=
  .ofList (replaceFrom mark.toList new.toList 0 s.toList)

/-- The number of occurrences of a nonempty mark, counted from the left and not overlapping. -/
def occurrences (mark : List Char) : Nat → List Char → Nat
  | _, [] => 0
  | skip + 1, _ :: cs => occurrences mark skip cs
  | 0, c :: cs =>
    if mark.isPrefixOf (c :: cs) then occurrences mark (mark.length - 1) cs + 1
    else occurrences mark 0 cs

/-- Whether the mark occurs in the text. -/
def occurs (mark : List Char) (s : List Char) : Bool :=
  match s with
  | [] => mark.isEmpty
  | c :: cs => mark.isPrefixOf (c :: cs) || occurs mark cs

/-- The parts of a text between its separators; there is always one more than separators. -/
def parts (sep : Char) : List Char → List (List Char)
  | [] => [[]]
  | c :: cs =>
    if c == sep then [] :: parts sep cs
    else lead c (parts sep cs)

/-- The text before the first separator and the text after it. -/
def cut? (sep : Char) (s : List Char) : Option (List Char × List Char) :=
  if s.contains sep then some (s.takeWhile (· != sep), (s.dropWhile (· != sep)).drop 1) else none

theorem dropWhile_eq_cons {sep : Char} {s : List Char} (h : sep ∈ s) :
    s.dropWhile (· != sep) = sep :: (s.dropWhile (· != sep)).drop 1 := by
  induction s with
  | nil => cases h
  | cons c cs ih =>
    by_cases hc : c = sep
    · simp [hc]
    · have hm : sep ∈ cs := by
        rcases List.mem_cons.1 h with rfl | hm
        · exact absurd rfl hc
        · exact hm
      simpa [List.dropWhile_cons, hc] using ih hm

theorem eq_append_of_cut? {sep : Char} {s before after : List Char}
    (h : cut? sep s = some (before, after)) : s = before ++ sep :: after ∧ sep ∉ before := by
  unfold cut? at h
  split at h
  · rename_i hc
    cases h
    refine ⟨?_, fun hm => ?_⟩
    · rw [← dropWhile_eq_cons (by simpa using hc), List.takeWhile_append_dropWhile]
    · simpa using List.all_eq_true.1 (List.all_takeWhile (l := s) (p := (· != sep))) sep hm
  · cases h

/-- The text after a mark that it starts with. -/
def afterMark? (mark s : List Char) : Option (List Char) :=
  if mark.isPrefixOf s then some (s.drop mark.length) else none

/-- Spaces after the text, up to `width` columns. -/
def padEnd (width : Nat) (s : String) : String :=
  s ++ .ofList (List.replicate (width - s.length) ' ')

@[simp] theorem length_padEnd (width : Nat) (s : String) :
    (padEnd width s).length = max width s.length := by
  simp [padEnd]
  omega

/-- Spaces before the text, up to `width` columns. -/
def padStart (width : Nat) (s : String) : String :=
  .ofList (List.replicate (width - s.length) ' ') ++ s

/-- Spaces on both sides up to `width` columns; an odd one goes after the text. -/
def padBoth (width : Nat) (s : String) : String :=
  let room := width - s.length
  .ofList (List.replicate (room / 2) ' ') ++ s ++ .ofList (List.replicate (room - room / 2) ' ')

/-- The digits of a number in a radix up to sixteen, capital letters above nine, with zeros in
front up to `width` columns. -/
def digits (radix width n : Nat) : String :=
  let ds := (Nat.toDigits radix n).map Char.toUpper
  .ofList (List.replicate (width - ds.length) '0' ++ ds)

/-- The hexadecimal digits of a number, at least `width` of them. -/
def hex (n : Nat) (width : Nat := 1) : String := digits 16 width n

end RegisterMap.Text
