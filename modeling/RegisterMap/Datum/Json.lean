import RegisterMap.Datum

/-!
# JSON

The reader and the printers of JSON texts. The reader is strict and keeps integers of 64 bits
exact; it counts down from the length of the text, which no nesting exceeds.
-/

namespace RegisterMap.Json

/-! ## Reading -/

def isSpace (c : Char) : Bool := c == ' ' || c == '\n' || c == '\t' || c == '\r'

/-- The rest of a text from its next token on. -/
def skip (s : List Char) : List Char := s.dropWhile isSpace

/-- The number that four hexadecimal digits spell. -/
def hex4? (a b c d : Char) : Option Nat :=
  [a, b, c, d].foldlM (fun n c => (Text.digitValue? 16 c).map (16 * n + ·)) 0

/-- The character of a code unit that stands alone. -/
def single? (unit : Nat) : Option Char :=
  if 0xD800 ≤ unit ∧ unit < 0xE000 then none else some (Char.ofNat unit)

/-- The character of a surrogate pair. -/
def pair? (high low : Nat) : Option Char :=
  if 0xD800 ≤ high ∧ high < 0xDC00 ∧ 0xDC00 ≤ low ∧ low < 0xE000 then
    some (Char.ofNat (0x10000 + (high - 0xD800) * 0x400 + (low - 0xDC00)))
  else none

/-- The character that a letter after a backslash stands for. -/
def escaped? : Char → Option Char
  | '"' => some '"'
  | '\\' => some '\\'
  | '/' => some '/'
  | 'b' => some '\x08'
  | 'f' => some '\x0c'
  | 'n' => some '\n'
  | 'r' => some '\r'
  | 't' => some '\t'
  | _ => none

/-- The text of characters that were read, last one first, if they all were. -/
def textOf : Option (List Char) → Datum
  | some done => .text (.ofList done.reverse)
  | none => .garbled

/-- Reads a string after its opening quote; `done` holds what was read, last character first, and
nothing once a code unit is no character. The first half of a pair waits for the second. -/
def string? (done : Option (List Char)) (half : Option Nat) : List Char → Option (Datum × List Char)
  | [] => none
  | '"' :: rest => some (if half.isSome then .garbled else textOf done, rest)
  | '\\' :: 'u' :: a :: b :: c :: d :: rest =>
    match hex4? a b c d with
    | none => none
    | some unit =>
      match half with
      | some high => string? (done.bind fun cs => (pair? high unit).map (· :: cs)) none rest
      | none =>
        match single? unit with
        | some ch => string? (done.map (ch :: ·)) none rest
        | none => string? done (some unit) rest
  | '\\' :: c :: rest =>
    match escaped? c with
    | some ch => string? (if half.isSome then none else done.map (ch :: ·)) none rest
    | none => none
  | c :: rest =>
    if c.toNat < 0x20 then none
    else string? (if half.isSome then none else done.map (c :: ·)) none rest

/-- Reads a key after its opening quote. -/
def key? (s : List Char) : Option (Datum × List Char) :=
  let hasEscape := (s.takeWhile (· != '"')).contains '\\'
  (string? (some []) none s).map fun (d, rest) =>
    match d with
    | .text k => (if hasEscape then .escaped k else .text k, rest)
    | d => (d, rest)

/-- The digits at the start of a text and the rest. -/
def digits (s : List Char) : List Char × List Char := s.span Char.isDigit

/-- The part of a number from its point on. -/
def fraction? (s : List Char) : Option (List Char × List Char) :=
  match s with
  | '.' :: rest =>
    let (ds, rest) := digits rest
    if ds.isEmpty then none else some ('.' :: ds, rest)
  | _ => some ([], s)

/-- The part of a number from its exponent on. -/
def exponent? (s : List Char) : Option (List Char × List Char) :=
  match s with
  | e :: rest =>
    if e == 'e' || e == 'E' then
      let (sign, rest) :=
        match rest with
        | '+' :: rest => (['+'], rest)
        | '-' :: rest => (['-'], rest)
        | _ => ([], rest)
      let (ds, rest) := digits rest
      if ds.isEmpty then none else some (e :: sign ++ ds, rest)
    else some ([], s)
  | [] => some ([], s)

/-- The number that decimal digits spell. -/
def decimal (ds : List Char) : Nat := ds.foldl (fun n c => 10 * n + (c.toNat - 48)) 0

/-- Reads a number. It is an integer when it has neither point nor exponent and fits 64 bits; a
negative zero does not. -/
def number? (s : List Char) : Option (Datum × List Char) := do
  let (negative, body) :=
    match s with
    | '-' :: rest => (true, rest)
    | _ => (false, s)
  let (ds, rest) := digits body
  guard !(ds.isEmpty || (ds.head? == some '0' && ds.length != 1))
  let (fraction, rest) ← fraction? rest
  let (exponent, rest) ← exponent? rest
  let n := decimal ds
  let whole := (if negative then ['-'] else []) ++ ds ++ fraction ++ exponent
  if fraction.isEmpty && exponent.isEmpty &&
      (if negative then 0 < n && n ≤ Bits.limit 63 else n < Bits.limit 64) then
    return (.integer (if negative then -(n : Int) else n), rest)
  else return (.fraction (.ofList whole), rest)

mutual

/-- Reads a value. -/
def value? : Nat → List Char → Option (Datum × List Char)
  | 0, _ => none
  | fuel + 1, s =>
    match skip s with
    | '"' :: rest => string? (some []) none rest
    | '[' :: rest =>
      match skip rest with
      | ']' :: rest => some (.list [], rest)
      | rest => (items? fuel rest).map fun (ds, rest) => (.list ds, rest)
    | '\x7b' :: rest =>
      match skip rest with
      | '\x7d' :: rest => some (.record [], rest)
      | rest => (entries? fuel rest).map fun (es, rest) => (.record es, rest)
    | 't' :: 'r' :: 'u' :: 'e' :: rest => some (.flag true, rest)
    | 'f' :: 'a' :: 'l' :: 's' :: 'e' :: rest => some (.flag false, rest)
    | 'n' :: 'u' :: 'l' :: 'l' :: rest => some (.null, rest)
    | rest => number? rest

/-- Reads the items of a list up to its closing bracket. -/
def items? : Nat → List Char → Option (List Datum × List Char)
  | 0, _ => none
  | fuel + 1, s =>
    match value? fuel s with
    | none => none
    | some (d, rest) =>
      match skip rest with
      | ']' :: rest => some ([d], rest)
      | ',' :: rest => (items? fuel rest).map fun (ds, rest) => (d :: ds, rest)
      | _ => none

/-- Reads the entries of an object up to its closing brace. -/
def entries? : Nat → List Char → Option (List (Datum × Datum) × List Char)
  | 0, _ => none
  | fuel + 1, s =>
    match skip s with
    | '"' :: rest =>
      match key? rest with
      | none => none
      | some (key, rest) =>
        match skip rest with
        | ':' :: rest =>
          match value? fuel rest with
          | none => none
          | some (d, rest) =>
            match skip rest with
            | '\x7d' :: rest => some ([(key, d)], rest)
            | ',' :: rest => (entries? fuel rest).map fun (es, rest) => ((key, d) :: es, rest)
            | _ => none
        | _ => none
    | _ => none

end

/-- The value that a text spells, with nothing but space around it. -/
def read? (s : String) : Option Datum := do
  let (d, rest) ← value? (s.length + 1) s.toList
  guard (skip rest).isEmpty
  return d

/-- The integer of 64 bits that a text spells without any space. -/
def integerText? (s : String) : Option Int :=
  match number? s.toList with
  | some (.integer n, []) => some n
  | _ => none

/-! ## Printing -/

/-- How a character is written in a string. -/
def escape (c : Char) : List Char :=
  if c == '"' then ['\\', '"']
  else if c == '\\' then ['\\', '\\']
  else if c == '\x08' then ['\\', 'b']
  else if c == '\x0c' then ['\\', 'f']
  else if c == '\n' then ['\\', 'n']
  else if c == '\r' then ['\\', 'r']
  else if c == '\t' then ['\\', 't']
  else if c.toNat < 0x20 then
    '\\' :: 'u' :: '0' :: '0' :: Nat.digitChar (c.toNat / 16) :: [Nat.digitChar (c.toNat % 16)]
  else [c]

/-- A string between quotes. -/
def quote (s : String) : String := .ofList ('"' :: s.toList.flatMap escape ++ ['"'])

/-- How the parts of a list or an object are set. -/
structure Setting where
  /-- What comes after an opening bracket, a comma, and before a closing bracket, by depth. -/
  newLine : Nat → String
  /-- What comes between a key and its value. -/
  colon : String

/-- One part to a line, each depth two columns further in. -/
def paged : Setting := ⟨fun n => .ofList ('\n' :: List.replicate (2 * n) ' '), ": "⟩

/-- All in one line. -/
def inLine : Setting := ⟨fun _ => "", ":"⟩

/-- The parts between brackets; an empty sequence of them takes no room. -/
def bracketed (st : Setting) (depth : Nat) (first last : String) (parts : List String) : String :=
  match parts with
  | [] => first ++ last
  | _ =>
    first ++ st.newLine (depth + 1) ++ ("," ++ st.newLine (depth + 1)).intercalate parts ++
      st.newLine depth ++ last

mutual

/-- The text of a value at a depth. -/
def print (st : Setting) (depth : Nat) : Datum → String
  | .null => "null"
  | .flag b => if b then "true" else "false"
  | .integer n => toString n
  | .fraction t => t
  | .text s => quote s
  | .escaped s => quote s
  | .garbled => "null"
  | .bare s => quote s
  | .literal s => quote s
  | .list ds => bracketed st depth "[" "]" (printItems st (depth + 1) ds)
  | .record es => bracketed st depth "\x7b" "\x7d" (printEntries st (depth + 1) es)
  | .tagged (.kind k) d =>
    bracketed st depth "\x7b" "\x7d" [quote k ++ st.colon ++ print st (depth + 1) d]
  | .tagged _ d => print st depth d

def printItems (st : Setting) (depth : Nat) : List Datum → List String
  | [] => []
  | d :: ds => print st depth d :: printItems st depth ds

def printEntries (st : Setting) (depth : Nat) : List (Datum × Datum) → List String
  | [] => []
  | (k, d) :: es =>
    (quote (k.text?.getD "") ++ st.colon ++ print st depth d) :: printEntries st depth es

end

/-- The text of a value over several lines. -/
def pretty (d : Datum) : String := print paged 0 d

/-- The text of a value in one line. -/
def compact (d : Datum) : String := print inLine 0 d

end RegisterMap.Json
