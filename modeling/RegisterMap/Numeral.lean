import RegisterMap.Bits
import RegisterMap.Failure
import RegisterMap.Text.Digit

/-!
# Number texts

The notations of numbers in descriptions: decimal, hexadecimal after `0x`, binary after `0b` or
`#`, and the lists and ranges of array indexes. Digits are read from the left, so that a number
that is too large is refused where it grows too large.
-/

namespace RegisterMap.Numeral

/-- Reads the remaining digits of a number below `limit`. -/
def readDigits (radix limit : Nat) : Nat → List Char → Except NumeralFault Nat
  | n, [] => .ok n
  | n, c :: cs =>
    match Text.digitValue? radix c with
    | none => .error .badDigit
    | some d =>
      if n * radix + d < limit then readDigits radix limit (n * radix + d) cs else .error .tooLarge

/-- A number below `limit` in the radix, with a plus sign in front of it or none. -/
def unsigned (radix limit : Nat) (s : List Char) : Except NumeralFault Nat :=
  match s with
  | [] => .error .empty
  | ['+'] => .error .badDigit
  | '+' :: ds => readDigits radix limit 0 ds
  | ds => readDigits radix limit 0 ds

/-- The digits after a mark, freed from underscores. -/
def marked? (marks : List String) (s : List Char) : Option (List Char) :=
  (marks.findSome? fun m => Text.afterMark? m.toList s).map (List.filter (· != '_'))

/-- What the text of a number without blanks around it says. -/
def notation? (s : List Char) : Except NumeralFault Nat :=
  match marked? ["0x", "0X"] s with
  | some ds => unsigned 16 (Bits.limit 64) ds
  | none =>
    match marked? ["0b", "0B", "#"] s with
    | some ds => unsigned 2 (Bits.limit 64) ds
    | none => unsigned 10 (Bits.limit 64) s

/-- A number of 64 bits in any notation, with blanks around it or none. -/
def number (s : String) : Except Failure Nat :=
  let s := Text.trim s
  match notation? s.toList with
  | .ok n => .ok n
  | .error fault => within (.numberText s) (fail (.numeral fault))

/-- The number as one of so many bits. -/
def narrow (bits n : Nat) : Except Failure Nat :=
  if n < Bits.limit bits then .ok n else fail .aboveRange

/-- The number as a signed one of so many bits. -/
def narrowSigned (bits : Nat) (n : Int) : Except Failure Int :=
  if n < -(Bits.limit (bits - 1) : Int) then fail .belowRange
  else if n < (Bits.limit (bits - 1) : Int) then .ok n
  else fail .aboveRange

/-- A signed number of 64 bits: a minus sign and any number, or a number alone. -/
def signed (s : String) : Except Failure Int := do
  match (Text.trim s).toList with
  | '-' :: rest => return -(← narrow 63 (← number (.ofList rest)))
  | s => return ← narrow 63 (← number (.ofList s))

/-- A truth value as a word or a digit. -/
def boolean (s : String) : Except Failure Bool :=
  let s := Text.trim s
  if s == "true" || s == "1" then .ok true
  else if s == "false" || s == "0" then .ok false
  else fail (.illegalBoolean s)

/-- The ends of a text that spells a range of two numbers of 32 bits. -/
def range? (s : List Char) : Option (Nat × Nat) := do
  let (first, last) ← Text.cut? '-' s
  let first ← (unsigned 10 (Bits.limit 32) (Text.trim (.ofList first)).toList).toOption
  let last ← (unsigned 10 (Bits.limit 32) (Text.trim (.ofList last)).toList).toOption
  return (first, last)

/-- The indexes of an array, as a list between commas or as a range of numbers. -/
def indexes (s : String) : Except Failure (List String) :=
  let s := Text.trim s
  match range? s.toList with
  | some (first, last) =>
    if last < first then fail (.illegalIndexRange s)
    else .ok ((List.range' first (last + 1 - first)).map toString)
  | none => .ok ((Text.parts ',' s.toList).map fun p => Text.trim (.ofList p))

end RegisterMap.Numeral
