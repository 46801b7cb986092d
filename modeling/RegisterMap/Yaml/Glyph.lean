import RegisterMap.Yaml.Character

/-!
# Characters in their places

A text as a list of its characters, each with its place. Every kind of line end is one glyph, and
an end mark stands behind the last character, so that it has a place too.
-/

namespace RegisterMap.Yaml

/-- A place in a text. -/
structure Place where
  /-- The number of characters before it. -/
  offset : Nat := 0
  line : Nat := 0
  column : Nat := 0
  deriving DecidableEq, Repr, Inhabited

namespace Place

/-- The place behind a character of a line. -/
def right (p : Place) : Place := { p with offset := p.offset + 1, column := p.column + 1 }

/-- The place behind so many characters that end a line. -/
def nextLine (n : Nat) (p : Place) : Place := ⟨p.offset + n, p.line + 1, 0⟩

end Place

/-- A character in its place. -/
structure Glyph where
  char : Char
  place : Place
  deriving DecidableEq, Repr, Inhabited

namespace Glyph

/-- The glyphs of a text from a place on. The separators of lines and of paragraphs stay what they
are, every other line end is a line feed. -/
def ofChars (p : Place) : List Char → List Glyph
  | [] => [⟨'\x00', p⟩]
  | '\r' :: '\n' :: cs => ⟨'\n', p⟩ :: ofChars (p.nextLine 2) cs
  | c :: cs =>
    if c.toNat == 0x2028 || c.toNat == 0x2029 then ⟨c, p⟩ :: ofChars (p.nextLine 1) cs
    else if isBreak c then ⟨'\n', p⟩ :: ofChars (p.nextLine 1) cs
    else ⟨c, p⟩ :: ofChars p.right cs

def isBlank (g : Glyph) : Bool := Yaml.isBlank g.char

def isBreak (g : Glyph) : Bool := Yaml.isBreak g.char

/-- The end mark. -/
def isEnd (g : Glyph) : Bool := g.char == '\x00'

/-- The glyph ends a word. -/
def isGap (g : Glyph) : Bool := g.isBlank || g.isBreak || g.isEnd

end Glyph

/-- A word ends here. -/
def atGap (gs : List Glyph) : Bool := gs.head?.all Glyph.isGap

/-- The character here is one for which something holds. -/
def at? (p : Char → Bool) (gs : List Glyph) : Bool := gs.head?.any fun g => p g.char

/-- A mark that begins or ends a document stands here, in the first column. -/
def atMarker : List Glyph → Bool
  | a :: b :: c :: gs =>
    a.place.column == 0 && (a.char == '-' || a.char == '.') && b.char == a.char &&
      c.char == a.char && atGap gs
  | _ => false

/-- The text after the blanks it starts with. -/
def skipBlanks (gs : List Glyph) : List Glyph := gs.dropWhile Glyph.isBlank

/-- What follows the line, on which nothing but a comment may stand. -/
def nextLine? (gs : List Glyph) : Option (List Glyph) :=
  let gs := skipBlanks gs
  let gs := if at? (· == '#') gs then gs.dropWhile fun g => !(g.isBreak || g.isEnd) else gs
  match gs with
  | [] => none
  | g :: rest => if g.isBreak then some rest else if g.isEnd then some (g :: rest) else none

/-- The name at the front of a text, and what follows it. -/
def name (gs : List Glyph) : List Char × List Glyph :=
  ((gs.takeWhile fun g => isNameChar g.char).map (·.char),
   gs.dropWhile fun g => isNameChar g.char)

/-! ## Gaps -/

/-- What stands between two words of a scalar. -/
inductive Gap
  | blanks (s : List Char)
  /-- A line end, unless it is escaped, and the further ones behind it. -/
  | lines (first : Option Char) (more : List Char)
  deriving DecidableEq, Repr, Inhabited

namespace Gap

/-- No gap. -/
def none : Gap := blanks []

/-- The gap with one more blank or line end. Blanks around line ends do not count. -/
def add (c : Char) : Gap → Gap
  | blanks s => if isBreak c then lines (some c) [] else blanks (s ++ [c])
  | lines first more => if isBreak c then lines first (more ++ [c]) else lines first more

/-- What the gap stands for: blanks for themselves, a line feed for a space, and more line ends for
what follows the first. -/
def text : Gap → List Char
  | blanks s => s
  | lines (some '\n') [] => [' ']
  | lines (some '\n') more => more
  | lines first more => first.toList ++ more

def hasLines : Gap → Bool
  | blanks _ => false
  | lines _ _ => true

end Gap

end RegisterMap.Yaml
