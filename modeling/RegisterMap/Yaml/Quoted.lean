import RegisterMap.Yaml.Glyph

/-!
# Quoted scalars of YAML

The texts that stand between quotes. Line ends in them are folded; between double quotes a
backslash takes its line end with it.
-/

namespace RegisterMap.Yaml

/-- Reads up to the closing single quote; `done` holds what was read, last character first, and
`gap` what stands behind it. -/
def single? (done : List Char) (gap : Gap) : List Glyph → Option (String × List Glyph)
  | [] => none
  | g :: gs =>
    if g.isBlank || g.isBreak then single? done (gap.add g.char) gs
    else if g.isEnd || atMarker (g :: gs) then none
    else
      let done := gap.text.reverse ++ done
      if g.char != '\'' then single? (g.char :: done) .none gs
      else
        match gs with
        | ⟨'\'', _⟩ :: rest => single? ('\'' :: done) .none rest
        | rest => some (.ofList done.reverse, rest)

/-- The number of digits behind the letter of an escape. -/
def escapeDigits : Char → Option Nat
  | 'x' => some 2
  | 'u' => some 4
  | 'U' => some 8
  | _ => none

/-- The character of a code point in hexadecimal digits. -/
def codePoint? (ds : List Char) : Option Char := do
  let n ← (Numeral.readDigits 16 (Bits.limit 32) 0 ds).toOption
  if n.isValidChar then return Char.ofNat n else none

/-- The character that a letter after a backslash stands for. -/
def letter? (c : Char) : Option Char :=
  if c == ' ' || c == '/' || c == '\t' then some c
  else (escapeLetters.find? fun (_, l) => l == c).map fun (n, _) => Char.ofNat n

/-- The character of an escape after its backslash, and the number of characters that spell it. -/
def escape? (gs : List Glyph) : Option (Char × Nat) :=
  match gs with
  | [] => none
  | g :: gs =>
    match escapeDigits g.char with
    | some n =>
      if n ≤ gs.length then (codePoint? ((gs.take n).map (·.char))).map (·, n + 1) else none
    | none => (letter? g.char).map (·, 1)

/-- Reads up to the closing double quote; `done` holds what was read, last character first, and
`gap` what stands behind it. The characters of an escape are counted down in `inside`. -/
def double? (done : List Char) (gap : Gap) (inside : Nat) :
    List Glyph → Option (String × List Glyph)
  | [] => none
  | g :: gs =>
    match inside with
    | n + 1 => double? done gap n gs
    | 0 =>
      if g.isBlank || g.isBreak then double? done (gap.add g.char) 0 gs
      else if g.isEnd || atMarker (g :: gs) then none
      else
        let done := gap.text.reverse ++ done
        if g.char == '"' then some (.ofList done.reverse, gs)
        else if g.char != '\\' then double? (g.char :: done) .none 0 gs
        else if at? isBreak gs then double? done (.lines none []) 1 gs
        else
          match escape? gs with
          | some (c, n) => double? (c :: done) .none n gs
          | none => none

/-- Reads a scalar after the quote with which it starts. -/
def quoted? (quote : Char) (gs : List Glyph) : Option (String × List Glyph) :=
  if quote == '\'' then single? [] .none gs else double? [] .none 0 gs

end RegisterMap.Yaml
