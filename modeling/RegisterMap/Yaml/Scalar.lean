import RegisterMap.Datum
import RegisterMap.Yaml.Character

/-!
# Scalars of YAML

How a text is written: plain where it reads back as the same text, in single quotes where it would
read as something else, in double quotes where it needs escapes, and as a literal block where it
has several lines.
-/

namespace RegisterMap.Yaml

/-- The next character is a gap, or there is none. -/
def gapFollows (s : List Char) : Bool := s.head?.all isGap

/-! ## Words that are not texts -/

/-- Digits of a number, perhaps with a point among or around them, and perhaps an exponent. -/
structure Decimal where
  whole : List Char
  fraction : List Char
  exponent : Int

namespace Decimal

/-- The exponent that follows the digits, zero if nothing does. -/
def exponent? (s : List Char) : Option Int :=
  match s with
  | [] => some 0
  | e :: rest =>
    if e == 'e' || e == 'E' then
      let number? (ds : List Char) : Option Int :=
        if ds.isEmpty || !ds.all Char.isDigit then none
        else some (ds.foldl (fun n c => 10 * n + (c.toNat - 48)) 0 : Nat)
      match rest with
      | '-' :: ds => (number? ds).map fun n => -n
      | '+' :: ds => number? ds
      | ds => number? ds
    else none

/-- The parts of a text that spells a number without sign. -/
def ofText? (s : List Char) : Option Decimal := do
  let (whole, rest) := s.span Char.isDigit
  let (fraction, rest) :=
    match rest with
    | '.' :: rest => rest.span Char.isDigit
    | _ => ([], rest)
  guard !(whole.isEmpty && fraction.isEmpty)
  return ⟨whole, fraction, ← exponent? rest⟩

/-- The least magnitude that is beyond all numbers of double precision. -/
def limit : Nat := Bits.limit 1024 - Bits.limit 970

/-- The number is one of double precision once rounded. -/
def isFinite (d : Decimal) : Bool :=
  let digits := (d.whole ++ d.fraction).dropWhile (· == '0')
  let n := digits.foldl (fun n c => 10 * n + (c.toNat - 48)) 0
  let shift := d.exponent - d.fraction.length
  if digits.isEmpty || digits.length + shift < 309 then true
  else if 309 < digits.length + shift then false
  else if 0 ≤ shift then n * Nat.pow 10 shift.toNat < limit
  else n < limit * Nat.pow 10 (-shift).toNat

end Decimal

/-- The text after a sign that is not followed by another one, or the whole text. -/
def unsigned (s : List Char) : List Char :=
  match s with
  | '+' :: rest => if rest.head?.any fun c => c == '+' || c == '-' then s else rest
  | '-' :: rest => if rest.head?.any fun c => c == '+' || c == '-' then s else rest
  | _ => s

/-- The text spells an integer of 128 bits in radix sixteen, eight or two. -/
def isMarkedInteger (s : List Char) : Bool :=
  let limit := if s.head? == some '-' then Bits.limit 127 + 1 else Bits.limit 128
  [("0x", 16), ("0o", 8), ("0b", 2)].any fun (mark, radix) =>
    match Text.afterMark? mark.toList (unsigned s) with
    | some ds =>
      !(ds.head?.any fun c => c == '+' || c == '-') &&
        (Numeral.unsigned radix limit ds).toOption.isSome
    | none => false

/-- The text spells a finite number in decimal digits. -/
def isDecimal (s : List Char) : Bool := (Decimal.ofText? (unsigned s)).any Decimal.isFinite

/-- The words for what no digits spell. -/
def isNumberWord (s : String) : Bool :=
  [".inf", ".Inf", ".INF", "+.inf", "+.Inf", "+.INF", "-.inf", "-.Inf", "-.INF", ".nan", ".NaN",
   ".NAN"].contains s

/-- Without quotes the text would not be a text, or not certainly. -/
def looksTyped (s : String) : Bool :=
  s.isEmpty || Datum.isNullWord s ||
    ["true", "True", "TRUE", "false", "False", "FALSE"].contains s ||
    isMarkedInteger s.toList || isDecimal s.toList || isNumberWord s

/-! ## Styles -/

/-- How a text is written. -/
inductive Style
  | plain
  | single
  | double
  | literal
  deriving DecidableEq, Repr

/-- The text starts as something other than a plain scalar does. -/
def startsOtherwise (s : List Char) : Bool :=
  match s with
  | [] => false
  | c :: cs =>
    "---".toList.isPrefixOf s || "...".toList.isPrefixOf s || isIndicator c ||
      ((c == '?' || c == ':' || c == '-') && gapFollows cs)

/-- A colon before a gap makes a key, and a number sign after one a comment. -/
def hasMark : (previous : Char) → List Char → Bool
  | _, [] => false
  | p, c :: cs => (c == ':' && gapFollows cs) || (c == '#' && isGap p) || hasMark c cs

/-- Two characters next to each other are of the two kinds. -/
def hasPair (p q : Char → Bool) (s : List Char) : Bool :=
  (s.zip s.tail).any fun (a, b) => p a && q b

/-- A space before a line end, or a character that needs an escape: only double quotes will do. -/
def needsEscape (s : List Char) : Bool := hasPair (· == ' ') isBreak s || !s.all isPrintable

def allowsPlain (s : List Char) : Bool :=
  !(needsEscape s || s.any isBreak || s.head? == some ' ' || s.getLast? == some ' ' ||
    startsOtherwise s || hasMark 'x' s.tail)

def allowsSingle (s : List Char) : Bool := !(needsEscape s || hasPair isBreak (· == ' ') s)

def allowsLiteral (s : List Char) : Bool := !(needsEscape s || s.getLast? == some ' ')

/-- The style of a text. -/
def style (s : String) : Style :=
  let cs := s.toList
  if cs.contains '\n' then if allowsLiteral cs then .literal else .double
  else if !looksTyped s && allowsPlain cs then .plain
  else if allowsSingle cs then .single
  else .double

/-! ## Writing -/

/-- What stands between single quotes. -/
def singleQuoted (s : List Char) : List Char :=
  s.flatMap fun c => if c == '\'' then ['\'', '\''] else [c]

/-- The escape of a character. -/
def escape (c : Char) : List Char :=
  let n := c.toNat
  match escapeLetters.lookup n with
  | some letter => ['\\', letter]
  | none =>
    '\\' ::
      if n ≤ 0xFF then 'x' :: (Text.hex n 2).toList
      else if n ≤ 0xFFFF then 'u' :: (Text.hex n 4).toList
      else 'U' :: (Text.hex n 8).toList

/-- What stands between double quotes. -/
def doubleQuoted (s : List Char) : List Char :=
  s.flatMap fun c =>
    if isPrintable c && !isBreak c && c != '"' && c != '\\' then [c] else escape c

/-- The text with its last line ended. -/
def endLine (s : List Char) : List Char := if s.getLast?.all isBreak then s else s ++ ['\n']

/-- What follows the bar of a literal block: the indentation, if the text does not show it, and
what becomes of the line feeds at its end. -/
def literalHints (s : List Char) : List Char :=
  (if s.head?.any fun c => c == ' ' || isBreak c then ['2'] else []) ++
    match s.reverse with
    | [] => ['-']
    | [c] => if isBreak c then ['+'] else ['-']
    | c :: d :: _ => if !isBreak c then ['-'] else if isBreak d then ['+'] else []

/-- The written form of a text: what begins on the line, and the lines below. -/
def write (s : String) : String × String :=
  let cs := s.toList
  match style s with
  | .plain => (s, "")
  | .single => (.ofList ('\'' :: singleQuoted cs ++ ['\'']), "")
  | .double => (.ofList ('"' :: doubleQuoted cs ++ ['"']), "")
  | .literal => (.ofList ('|' :: literalHints cs), .ofList (endLine cs))

end RegisterMap.Yaml
