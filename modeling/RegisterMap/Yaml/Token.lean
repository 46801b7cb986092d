import RegisterMap.Yaml.Block
import RegisterMap.Yaml.Plain
import RegisterMap.Yaml.Property
import RegisterMap.Yaml.Quoted

/-!
# YAML tokens

The marks and scalars of a text in order. The structure of blocks, which a text shows by columns
alone, appears as tokens as well: a block begins where something stands further right than the
block around it, and ends where something stands further left. Main definition: `Token.ofGlyphs?`.
-/

namespace RegisterMap.Yaml

/-- A part of a text. -/
inductive Token
  | directive (d : Directive)
  | documentStart
  | documentEnd
  /-- A list begins whose items stand in one column. -/
  | blockList
  /-- A record begins whose keys stand in one column. -/
  | blockRecord
  | blockEnd
  | openList
  | closeList
  | openRecord
  | closeRecord
  /-- The dash before an item. -/
  | item
  | comma
  | key
  | value
  | reference (id : Nat)
  | anchor (id : Nat)
  | tag (t : Shorthand)
  | scalar (d : Datum)
  deriving Repr, Inhabited

namespace Token

/-- A value that may turn out to be a key, when a colon follows it. -/
structure Candidate where
  /-- The number of tokens before it. -/
  count : Nat
  place : Place
  /-- Nothing but a key can stand there. -/
  isRequired : Bool
  deriving DecidableEq, Repr, Inhabited

/-- A key must be shorter than this. -/
def Candidate.reach : Nat := 1024

/-- The place is too far behind the candidate for a key: on another line, or out of reach. -/
def Candidate.isStale (p : Place) (c : Candidate) : Bool :=
  c.place.line < p.line || c.place.offset + reach < p.offset

/-- A text between two of its tokens. -/
structure Progress where
  rest : List Glyph
  /-- The tokens so far, the last one first. -/
  tokens : List Token := []
  /-- The number of the tokens so far. -/
  count : Nat := 0
  /-- The columns of the blocks around the place, the innermost first. -/
  columns : List Nat := []
  /-- A key may start here. -/
  allowsKey : Bool := true
  candidate : Option Candidate := none
  /-- The candidates outside of each bracket around the place, the innermost first. -/
  outer : List (Option Candidate) := []
  /-- The names of anchors and the numbers that they have now, the newest first. -/
  anchors : List (String × Nat) := []
  deriving Repr, Inhabited

namespace Progress

def place (s : Progress) : Place := (s.rest.head?.map (·.place)).getD {}

def inBrackets (s : Progress) : Bool := !s.outer.isEmpty

/-- The first column that belongs to the innermost block. -/
def least (s : Progress) : Nat := (s.columns.head?.map (· + 1)).getD 0

/-- One more token, and what follows it. -/
def push (s : Progress) (t : Token) (rest : List Glyph) : Progress :=
  { s with tokens := t :: s.tokens, count := s.count + 1, rest }

/-- One more token after the first so many. -/
def insert (s : Progress) (n : Nat) (t : Token) : Progress :=
  let later := s.count - n
  { s with tokens := s.tokens.take later ++ t :: s.tokens.drop later, count := s.count + 1 }

/-! ## Keys -/

/-- No key starts at the candidate, if that can be. -/
def dropCandidate? (s : Progress) : Option Progress :=
  if s.candidate.any (·.isRequired) then none else some { s with candidate := none }

/-- The value that begins here is a candidate, if a key may start here. -/
def noteCandidate? (s : Progress) : Option Progress :=
  if s.allowsKey then do
    let isRequired := !s.inBrackets && s.columns.head? == some s.place.column
    return { (← s.dropCandidate?) with candidate := some ⟨s.count, s.place, isRequired⟩ }
  else some s

/-- The candidates that are still in reach. -/
def dropStale? (s : Progress) : Option Progress :=
  let stale := Candidate.isStale s.place
  if (s.candidate :: s.outer).any fun c => c.any fun c => stale c && c.isRequired then none
  else
    let fresh (c : Option Candidate) : Option Candidate := c.filter fun c => !stale c
    some { s with candidate := fresh s.candidate, outer := s.outer.map fresh }

/-! ## Blocks -/

/-- A block begins in a column, unless one around the place stands there or further right. Its token
comes after the first so many. Between brackets there are no blocks. -/
def openBlock (s : Progress) (column n : Nat) (t : Token) : Progress :=
  if s.inBrackets || s.columns.head?.any (column ≤ ·) then s
  else { s.insert n t with columns := column :: s.columns }

/-- The blocks in some columns end. -/
def closeBlocks (s : Progress) (ends : Nat → Bool) : Progress :=
  if s.inBrackets then s
  else
    let closed := (s.columns.takeWhile ends).length
    { s with
      tokens := List.replicate closed .blockEnd ++ s.tokens
      count := s.count + closed
      columns := s.columns.dropWhile ends }

/-- All blocks end, and no key may start here. -/
def closeAll? (s : Progress) : Option Progress := do
  return { (← (s.closeBlocks fun _ => true).dropCandidate?) with allowsKey := false }

/-! ## Gaps between tokens -/

/-- The text from the next token on, and whether a key may start there. A line end allows that in
blocks, and a tab in front of a token is no part of its column. A byte order mark may begin a
line. -/
def skipGaps (inBrackets : Bool) (allowsKey inComment : Bool) : List Glyph → Bool × List Glyph
  | [] => (allowsKey, [])
  | g :: gs =>
    if g.isBreak then skipGaps inBrackets (allowsKey || !inBrackets) false gs
    else if g.isEnd then (allowsKey, g :: gs)
    else if inComment then skipGaps inBrackets allowsKey true gs
    else if g.char == '#' then skipGaps inBrackets allowsKey true gs
    else if g.char == ' ' || (g.char == '\t' && (inBrackets || !allowsKey)) ||
        (g.char == '\uFEFF' && g.place.column == 0) then
      skipGaps inBrackets allowsKey false gs
    else (allowsKey, g :: gs)

/-- The next token and what has to be known there. -/
def advance? (s : Progress) : Option Progress := do
  let (allowsKey, rest) := skipGaps s.inBrackets s.allowsKey false s.rest
  let s ← { s with allowsKey, rest }.dropStale?
  return s.closeBlocks (s.place.column < ·)

/-! ## The tokens -/

/-- A mark that begins or ends a document. -/
def marker? (s : Progress) (t : Token) : Option Progress := do
  return (← s.closeAll?).push t (s.rest.drop 3)

def directive? (s : Progress) : Option Progress := do
  let (d, rest) ← Directive.ofGlyphs? (s.rest.drop 1)
  return (← s.closeAll?).push (.directive d) rest

/-- An opening bracket. The whole between the brackets may be a key. -/
def bracket? (s : Progress) (t : Token) : Option Progress := do
  let s ← s.noteCandidate?
  let inner := { s with outer := s.candidate :: s.outer, candidate := none, allowsKey := true }
  return inner.push t (s.rest.drop 1)

/-- A closing bracket. -/
def unbracket? (s : Progress) (t : Token) : Option Progress := do
  let s ← s.dropCandidate?
  let around := { s with candidate := s.outer.head?.join, outer := s.outer.drop 1 }
  return { around with allowsKey := false }.push t (s.rest.drop 1)

def comma? (s : Progress) : Option Progress := do
  return { (← s.dropCandidate?) with allowsKey := true }.push .comma (s.rest.drop 1)

/-- A mark with which an item or a key begins, and perhaps the block of it. -/
def opener? (s : Progress) (block mark : Token) (allowsKey : Bool) : Option Progress := do
  guard (s.inBrackets || s.allowsKey)
  let s ← (s.openBlock s.place.column s.count block).dropCandidate?
  return { s with allowsKey }.push mark (s.rest.drop 1)

/-- A colon. The candidate turns out to be a key, and its column to be that of a block. -/
def colon? (s : Progress) : Option Progress :=
  match s.candidate with
  | some c =>
    let s := (s.insert c.count .key).openBlock c.place.column c.count .blockRecord
    some ({ s with candidate := none, allowsKey := false }.push .value (s.rest.drop 1))
  | none => do
    guard (s.inBrackets || s.allowsKey)
    let s := s.openBlock s.place.column s.count .blockRecord
    return { s with allowsKey := !s.inBrackets }.push .value (s.rest.drop 1)

/-- A reference to the anchor that has the name now. -/
def reference? (s : Progress) : Option Progress := do
  let s ← s.noteCandidate?
  let (n, rest) ← anchorName? (s.rest.drop 1)
  return { s with allowsKey := false }.push (.reference (← s.anchors.lookup n)) rest

/-- An anchor. It is numbered by the names that were in use before it. -/
def anchor? (s : Progress) : Option Progress := do
  let s ← s.noteCandidate?
  let (n, rest) ← anchorName? (s.rest.drop 1)
  let id := s.anchors.length
  let anchors := (n, id) :: s.anchors.filter fun (m, _) => m != n
  return { s with allowsKey := false, anchors }.push (.anchor id) rest

def tag? (s : Progress) : Option Progress := do
  let s ← s.noteCandidate?
  let (t, rest) ← Yaml.tag? s.inBrackets (s.rest.drop 1)
  return { s with allowsKey := false }.push (.tag t) rest

/-- A block scalar, behind which a key may start. -/
def block? (s : Progress) (isFolded : Bool) : Option Progress := do
  let s ← s.dropCandidate?
  let (t, rest) ← Yaml.block? isFolded s.columns.head? (s.rest.drop 1)
  let d : Datum := if isFolded then .text t else .literal t
  return { s with allowsKey := true }.push (.scalar d) rest

def quoted? (s : Progress) (quote : Char) : Option Progress := do
  let s ← s.noteCandidate?
  let (t, rest) ← Yaml.quoted? quote (s.rest.drop 1)
  return { s with allowsKey := false }.push (.scalar (.text t)) rest

def plain? (s : Progress) : Option Progress := do
  let s ← s.noteCandidate?
  let (w, rest) ← Yaml.plain? ⟨s.inBrackets, s.least⟩ [] .none s.rest
  return { s with allowsKey := w.endsLine }.push (.scalar (.bare w.text)) rest

/-- Reads the token that starts here with a character. -/
def next? (s : Progress) (c : Char) : Option Progress :=
  let behind := s.rest.drop 1
  if s.place.column == 0 && c == '%' then s.directive?
  else if atMarker s.rest then s.marker? (if c == '-' then .documentStart else .documentEnd)
  else if c == '[' then s.bracket? .openList
  else if c == '\x7b' then s.bracket? .openRecord
  else if c == ']' then s.unbracket? .closeList
  else if c == '\x7d' then s.unbracket? .closeRecord
  else if c == ',' then s.comma?
  else if c == '-' && atGap behind then s.opener? .blockList .item true
  else if c == '?' && (s.inBrackets || atGap behind) then s.opener? .blockRecord .key !s.inBrackets
  else if c == ':' && (s.inBrackets || atGap behind) then s.colon?
  else if c == '*' then s.reference?
  else if c == '&' then s.anchor?
  else if c == '!' then s.tag?
  else if c == '|' && !s.inBrackets then s.block? false
  else if c == '>' && !s.inBrackets then s.block? true
  else if c == '\'' || c == '"' then s.quoted? c
  else if startsPlain s.inBrackets s.rest then s.plain?
  else none

end Progress

/-- Reads the tokens of a text, counting down from its length. -/
def read? : Nat → Progress → Option (List Token)
  | 0, _ => none
  | fuel + 1, s => do
    let s ← s.advance?
    match s.rest with
    | [] => none
    | g :: _ =>
      if g.isEnd then return (← s.closeAll?).tokens.reverse
      else read? fuel (← s.next? g.char)

/-- The tokens of a text. -/
def ofGlyphs? (gs : List Glyph) : Option (List Token) := read? gs.length { rest := gs }

end Token

end RegisterMap.Yaml
