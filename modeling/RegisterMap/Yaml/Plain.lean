import RegisterMap.Yaml.Glyph

/-!
# Scalars without quotes

A plain scalar goes on over words and lines until something else begins: a comment, a colon before
a gap, a line too far to the left, or a sign that has a meaning between brackets.
-/

namespace RegisterMap.Yaml

/-- Where a scalar stands: between brackets, or in a block whose lines start at some column. -/
structure Room where
  inBrackets : Bool
  /-- The first column that belongs to the block. -/
  least : Nat
  deriving DecidableEq, Repr, Inhabited

/-- A scalar that was read: its text, and whether a line end follows it. -/
structure Word where
  text : String
  endsLine : Bool
  deriving DecidableEq, Repr, Inhabited

/-- A word that follows a gap here would be no part of the scalar. -/
def Room.isLeft (room : Room) (gs : List Glyph) : Bool :=
  (!room.inBrackets && gs.head?.any fun g => g.place.column < room.least) || atMarker gs ||
    at? (· == '#') gs

/-- The character here ends the scalar. -/
def Room.ends (room : Room) (c : Char) (rest : List Glyph) : Bool :=
  (c == ':' && atGap rest) || (room.inBrackets && isBracketSign c)

/-- The character here is a colon before a sign, which stands for nothing between brackets. -/
def Room.refuses (room : Room) (c : Char) (rest : List Glyph) : Bool :=
  room.inBrackets && c == ':' && at? (fun d => d == '?' || isBracketSign d) rest

/-- Reads a scalar; `done` holds what was read, last character first, and `gap` what stands behind
it. A tab may not stand where spaces tell how far in the line begins. -/
def plain? (room : Room) (done : List Char) (gap : Gap) : List Glyph → Option (Word × List Glyph)
  | [] => none
  | g :: gs =>
    let word : Word := ⟨.ofList done.reverse, gap.hasLines⟩
    if g.isBlank || g.isBreak then
      if gap.hasLines && g.char == '\t' && g.place.column < room.least then none
      else plain? room done (gap.add g.char) gs
    else if g.isEnd || (gap != .none && room.isLeft (g :: gs)) then some (word, g :: gs)
    else if room.refuses g.char gs then none
    else if room.ends g.char gs then some (word, g :: gs)
    else plain? room (g.char :: (gap.text.reverse ++ done)) .none gs

/-- A plain scalar may start here. -/
def startsPlain (inBrackets : Bool) : List Glyph → Bool
  | [] => false
  | g :: gs =>
    if g.char == '-' then !(gs.head?.any Glyph.isBlank)
    else if g.char == '?' || g.char == ':' then !inBrackets && !atGap gs
    else !(g.isGap || isIndicator g.char)

end RegisterMap.Yaml
