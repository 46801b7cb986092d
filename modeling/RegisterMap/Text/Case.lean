import RegisterMap.Text.CaseTable

/-!
# Case

Capital and small letters of all scripts, and the comparison of texts that takes the ASCII
capitals for their small letters.
-/

namespace RegisterMap.Text

/-- What a run table says about a code point: its distance to the letter of the other case. -/
def runShift? (runs : List (Nat × Nat × Nat × Int)) (n : Nat) : Option Int :=
  (runs.find? fun (first, last, step, _) => first ≤ n && n ≤ last && (n - first) % step == 0).map
    fun (_, _, _, shift) => shift

/-- The letters that stand for a character in the other case. -/
def mapped (runs : List (Nat × Nat × Nat × Int)) (sequences : List (Nat × List Nat)) (c : Char) :
    List Char :=
  match runShift? runs c.toNat with
  | some shift => [Char.ofNat (c.toNat + shift).toNat]
  | none =>
    match sequences.lookup c.toNat with
    | some ns => ns.map Char.ofNat
    | none => [c]

/-- The text in capitals; one letter may become several. -/
def upper (s : String) : String :=
  .ofList (s.toList.flatMap fun c =>
    if c.toNat < 0x80 then [c.toUpper] else mapped CaseTable.capitals CaseTable.capitalSequences c)

/-- A code point in one of the ranges. -/
def inRanges (ranges : List (Nat × Nat)) (c : Char) : Bool :=
  ranges.any fun (first, last) => first ≤ c.toNat && c.toNat ≤ last

/-- The next character that is not passed over is a cased letter. -/
def meetsLetter (s : List Char) : Bool :=
  match s.dropWhile (inRanges CaseTable.transparent) with
  | [] => false
  | c :: _ => inRanges CaseTable.cased c

/-- Small letters for a text that follows `before`, which is held last character first. A capital
sigma that ends a word becomes a final one. -/
def lowerAfter : List Char → List Char → List Char
  | _, [] => []
  | before, c :: cs =>
    let here :=
      if c.toNat < 0x80 then [c.toLower]
      else if c == 'Σ' then [if meetsLetter before && !meetsLetter cs then 'ς' else 'σ']
      else mapped CaseTable.smalls CaseTable.smallSequences c
    here ++ lowerAfter (c :: before) cs

/-- The text in small letters. -/
def lower (s : String) : String := .ofList (lowerAfter [] s.toList)

/-- The texts differ at most in the case of ASCII letters. -/
def sameLetters (a b : String) : Bool := a.toList.map Char.toLower == b.toList.map Char.toLower

theorem sameLetters_comm (a b : String) : sameLetters a b = sameLetters b a := by
  simp [sameLetters, Bool.beq_comm]

theorem sameLetters_self (a : String) : sameLetters a a = true := by simp [sameLetters]

end RegisterMap.Text
