import RegisterMap.Numeral

/-!
# Characters of XML

The characters that a document may hold, those of names, and the references that stand for
characters. A line end is one line feed once a text has been read.
-/

namespace RegisterMap.Xml

/-- White space between the parts of markup. -/
def isSpace (c : Char) : Bool := c == ' ' || c == '\t' || c == '\n' || c == '\r'

/-- A character that a document may hold. -/
def isAllowed (c : Char) : Bool :=
  if c.toNat < 0x20 then isSpace c else c.toNat != 0xFFFE && c.toNat != 0xFFFF

/-- The code points above ASCII with which a name may start, as ranges. -/
def nameStarts : List (Nat × Nat) :=
  [(0xC0, 0xD6), (0xD8, 0xF6), (0xF8, 0x2FF), (0x370, 0x37D), (0x37F, 0x1FFF), (0x200C, 0x200D),
   (0x2070, 0x218F), (0x2C00, 0x2FEF), (0x3001, 0xD7FF), (0xF900, 0xFDCF), (0xFDF0, 0xFFFD),
   (0x10000, 0xEFFFF)]

/-- The code points above ASCII that a name may hold further on only. -/
def nameRests : List (Nat × Nat) := [(0xB7, 0xB7), (0x300, 0x36F), (0x203F, 0x2040)]

def isAmong (ranges : List (Nat × Nat)) (c : Char) : Bool :=
  ranges.any fun (low, high) => low ≤ c.toNat && c.toNat ≤ high

/-- A character with which a name may start. -/
def startsName (c : Char) : Bool := c.isAlpha || c == ':' || c == '_' || isAmong nameStarts c

/-- A character that a name may hold. -/
def inName (c : Char) : Bool :=
  startsName c || c.isDigit || c == '-' || c == '.' || isAmong nameRests c

/-! ## References -/

/-- The character of a code point, or the replacement character if there is none. -/
def characterAt (n : Nat) : Char := if n.isValidChar then Char.ofNat n else Char.ofNat 0xFFFD

/-- The character of a number in a radix, if a document may hold it. -/
def numbered? (radix : Nat) (ds : List Char) : Option Char :=
  if ds.isEmpty then none
  else
    match Numeral.readDigits radix (Bits.limit 32) 0 ds with
    | .ok n => some (characterAt n) |>.filter isAllowed
    | .error _ => none

/-- The character that a reference stands for, by what is between ampersand and semicolon. -/
def reference? : List Char → Option Char
  | '#' :: 'x' :: ds => numbered? 16 ds
  | '#' :: ds => numbered? 10 ds
  | name => [("quot", '"'), ("amp", '&'), ("apos", '\''), ("lt", '<'), ("gt", '>')].lookup
      (String.ofList name)

/-- A character as a text spells it. -/
inductive Glyph
  | plain (c : Char)
  /-- A reference stands for it. -/
  | referred (c : Char)
  deriving DecidableEq, Repr

/-- What follows the semicolon that ends a reference. -/
def afterReference (s : List Char) : List Char := (s.dropWhile (· != ';')).drop 1

theorem length_afterReference_le (s : List Char) : (afterReference s).length ≤ s.length := by
  have := (List.dropWhile_suffix (l := s) (· != ';')).length_le
  simp only [afterReference, List.length_drop]
  omega

/-- The characters of a text with its references resolved. -/
def glyphs? : List Char → Option (List Glyph)
  | [] => some []
  | c :: cs =>
    if c != '&' then (glyphs? cs).map (.plain c :: ·)
    else if cs.contains ';' then do
      let r ← reference? (cs.takeWhile (· != ';'))
      (glyphs? (afterReference cs)).map (.referred r :: ·)
    else none
termination_by s => s.length
decreasing_by
  · simp
  · have := length_afterReference_le cs
    simp only [List.length_cons]
    omega

/-- The characters with every line end as one line feed. A character that a reference stands for
is none, nor is a carriage return before one or alone behind one. -/
def lineEnds (behindReference : Bool) : List Glyph → List Char
  | [] => []
  | .referred c :: gs => c :: lineEnds true gs
  | .plain c :: gs =>
    if c != '\r' then c :: lineEnds false gs
    else
      match gs with
      | [] => if behindReference then ['\r'] else ['\n']
      | .referred d :: gs => '\r' :: d :: lineEnds true gs
      | .plain '\n' :: gs => '\n' :: lineEnds false gs
      | .plain d :: gs => '\n' :: lineEnds false (.plain d :: gs)

/-- The characters of an attribute's value, where white space is spaces. -/
def spaced : List Glyph → List Char
  | [] => []
  | .plain '\r' :: .plain '\n' :: gs => ' ' :: spaced gs
  | .plain c :: gs => (if isSpace c then ' ' else c) :: spaced gs
  | .referred c :: gs => c :: spaced gs

/-- The text of character data. -/
def text? (s : List Char) : Option String :=
  (glyphs? s).map fun gs => .ofList (lineEnds false gs)

/-- The text of an attribute's value. -/
def value? (s : List Char) : Option String := (glyphs? s).map fun gs => .ofList (spaced gs)

/-- The text of a section without references. -/
def literal (s : List Char) : String := .ofList (lineEnds false (s.map .plain))

/-! ## Escapes -/

/-- How a character is written in text. -/
def escapeText (c : Char) : List Char :=
  if c == '&' then "&amp;".toList
  else if c == '<' then "&lt;".toList
  else if c == '>' then "&gt;".toList
  else [c]

/-- How a character is written in an attribute's value between double quotes. -/
def escapeValue (c : Char) : List Char := if c == '"' then "&quot;".toList else escapeText c

end RegisterMap.Xml
