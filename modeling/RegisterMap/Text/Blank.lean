/-!
# Blanks

The characters that count as white space, and the edits that look at nothing else: trimming a
text, splitting it into words, and writing it with single spaces.
-/

namespace RegisterMap.Text

/-- A character with the White_Space property. -/
def isBlank (c : Char) : Bool :=
  let n := c.toNat
  (0x09 ≤ n && n ≤ 0x0D) || n == 0x20 || n == 0x85 || n == 0xA0 || n == 0x1680 ||
    (0x2000 ≤ n && n ≤ 0x200A) || n == 0x2028 || n == 0x2029 || n == 0x202F || n == 0x205F ||
    n == 0x3000

theorem isBlank_of_isWhitespace {c : Char} (h : c.isWhitespace = true) : isBlank c = true := by
  simp only [Char.isWhitespace, Bool.or_eq_true, decide_eq_true_eq] at h
  rcases h with ((h | h) | h) | h <;> subst h <;> decide

/-- The text without the blanks it starts with. -/
def trimStart (s : String) : String := .ofList (s.toList.dropWhile isBlank)

/-- The text without the blanks it ends with. -/
def trimEnd (s : String) : String := .ofList (s.toList.reverse.dropWhile isBlank).reverse

/-- The text without the blanks around it. -/
def trim (s : String) : String := trimEnd (trimStart s)

/-- The pieces with one more character at the front of the first. -/
def lead (c : Char) : List (List Char) → List (List Char)
  | [] => [[c]]
  | w :: ws => (c :: w) :: ws

/-- The longest runs of characters that are not blank, in order. -/
def words : List Char → List (List Char)
  | [] => []
  | c :: cs =>
    if isBlank c then words cs
    else if cs.head?.all isBlank then [c] :: words cs
    else lead c (words cs)

/-- Blanks separate words and are no part of them. -/
theorem not_isBlank_of_mem_words {s w : List Char} {c : Char} (hw : w ∈ words s) (hc : c ∈ w) :
    isBlank c = false := by
  induction s generalizing w with
  | nil => simp [words] at hw
  | cons d cs ih =>
    simp only [words] at hw
    split at hw
    · exact ih hw hc
    · split at hw
      · grind
      · cases h : words cs <;> grind [lead]

/-- The words of a text with one space between them. -/
def respaced (s : String) : String :=
  " ".intercalate ((words s.toList).map String.ofList)

/-- The text up to the first line feed, carriage return or tab, trimmed. -/
def firstLine (s : String) : String :=
  trimEnd (.ofList ((trimStart s).toList.takeWhile fun c => c != '\n' && c != '\r' && c != '\t'))

end RegisterMap.Text
