import RegisterMap.Yaml.Glyph

/-!
# Scalars over lines of their own

Block scalars: a header, and lines that stand further in than what they belong to. In a literal
one the lines stay as they are; in a folded one a line end between two lines that begin with a word
counts as a space.
-/

namespace RegisterMap.Yaml

/-- What becomes of the line ends at the end of a block scalar. -/
inductive Chomping
  | strip
  | clip
  | keep
  deriving DecidableEq, Repr

/-- What stands on the first line of a block scalar. -/
structure BlockHeader where
  chomping : Chomping := .clip
  /-- How much further in than its parent the text stands, if that is said. -/
  indent : Option Nat := none
  deriving DecidableEq, Repr

namespace BlockHeader

/-- What a sign says about the line ends at the end. -/
def chomping? (c : Char) : Option Chomping :=
  if c == '-' then some .strip else if c == '+' then some .keep else none

/-- The number of columns that a digit says. -/
def indent? (c : Char) : Option Nat :=
  if c.isDigit && c != '0' then some (c.toNat - 48) else none

/-- Reads the signs behind the bar: one of each kind, in either order. -/
def read (gs : List Glyph) : BlockHeader × List Glyph :=
  match gs with
  | [] => ({}, [])
  | g :: gs =>
    match chomping? g.char, indent? g.char with
    | some c, _ =>
      match gs.head?.bind fun h => indent? h.char with
      | some n => ({ chomping := c, indent := some n }, gs.drop 1)
      | none => ({ chomping := c }, gs)
    | none, some n =>
      match gs.head?.bind fun h => chomping? h.char with
      | some c => ({ chomping := c, indent := some n }, gs.drop 1)
      | none => ({ indent := some n }, gs)
    | none, none => ({}, g :: gs)

end BlockHeader

/-- The text of a block scalar as far as it was read. -/
structure BlockText where
  /-- The characters of the lines, the last one first. -/
  done : List Char := []
  /-- The end of the last line, if it has ended. -/
  lineEnd : Option Char := none
  /-- The empty lines behind it. -/
  empty : List Char := []
  /-- The last line begins with a blank. -/
  isIndented : Bool := false
  deriving DecidableEq, Repr, Inhabited

namespace BlockText

/-- What the line ends before a line stand for that begins with a character. -/
def joint (t : BlockText) (isFolded : Bool) (c : Char) : List Char :=
  if isFolded && t.lineEnd == some '\n' && !t.isIndented && !isBlank c then
    if t.empty.isEmpty then [' '] else t.empty
  else t.lineEnd.toList ++ t.empty

/-- The text with the first character of another line. -/
def beginLine (t : BlockText) (isFolded : Bool) (c : Char) : BlockText where
  done := c :: ((t.joint isFolded c).reverse ++ t.done)
  isIndented := isBlank c

/-- The whole text, with as many line ends as are to stay. -/
def toText (t : BlockText) : Chomping → String
  | .strip => .ofList t.done.reverse
  | .clip => .ofList (t.done.reverse ++ t.lineEnd.toList)
  | .keep => .ofList (t.done.reverse ++ t.lineEnd.toList ++ t.empty)

end BlockText

/-- Reads lines up to the first that does not belong to the text. Unless it is given, the
indentation is that of the first line with a word, or more where an empty line is longer. -/
def blockText? (isFolded : Bool) (least : Nat) (indent : Option Nat) (widest : Nat)
    (inLine : Bool) (t : BlockText) : List Glyph → Option (BlockText × List Glyph)
  | [] => none
  | g :: gs =>
    if inLine then
      if g.isBreak then
        blockText? isFolded least indent widest false { t with lineEnd := some g.char } gs
      else if g.isEnd then some (t, g :: gs)
      else blockText? isFolded least indent widest true { t with done := g.char :: t.done } gs
    else
      let inMargin := indent.all (g.place.column < ·)
      if inMargin && g.char == ' ' then blockText? isFolded least indent widest false t gs
      else if inMargin && g.char == '\t' then none
      else
        let widest := max widest g.place.column
        if g.isBreak then
          blockText? isFolded least indent widest false { t with empty := t.empty ++ [g.char] } gs
        else
          let column := indent.getD (max (max widest least) 1)
          if g.place.column == column && !g.isEnd then
            blockText? isFolded least (some column) widest true (t.beginLine isFolded g.char) gs
          else some (t, g :: gs)

/-- Reads a block scalar behind its bar. It belongs to what starts in the column `parent`. -/
def block? (isFolded : Bool) (parent : Option Nat) (gs : List Glyph) :
    Option (String × List Glyph) := do
  let (header, rest) := BlockHeader.read gs
  let lines ← nextLine? rest
  let least := (parent.map (· + 1)).getD 0
  let indent := header.indent.map (· + parent.getD 0)
  let (t, rest) ← blockText? isFolded least indent 0 false {} lines
  return (t.toText header.chomping, rest)

end RegisterMap.Yaml
