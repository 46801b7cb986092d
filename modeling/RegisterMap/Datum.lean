import RegisterMap.Numeral

/-!
# Data

The tree of values that a structured document consists of, whatever its syntax, and the ways in
which the values are understood. A scalar of YAML is kept as its text with its tag, because only
the place where it stands tells what it is.
-/

namespace RegisterMap

/-- What a tag says about the value under it. -/
inductive Tag
  /-- The value is of a kind that the document names. -/
  | kind (name : String)
  | null
  | integer
  | flag
  /-- Something that no reading depends on. -/
  | other
  deriving DecidableEq, Repr, Inhabited

/-- A value of a structured document. -/
inductive Datum
  | null
  | flag (b : Bool)
  | integer (n : Int)
  /-- A number that is no integer of 64 bits. -/
  | fraction (text : String)
  | text (s : String)
  /-- A text that is written with escapes, where it matters how it is written. -/
  | escaped (s : String)
  /-- A text that spells no characters. -/
  | garbled
  /-- A scalar without quotes. -/
  | bare (s : String)
  /-- A scalar over lines of its own, which its tag may call a number or a truth value. -/
  | literal (s : String)
  | list (items : List Datum)
  | record (entries : List (Datum × Datum))
  | tagged (tag : Tag) (content : Datum)
  deriving Repr, Inhabited

namespace Datum

mutual

/-- The number of values around the innermost one, itself included. -/
def depth : Datum → Nat
  | list items => depthOfList items + 1
  | record entries => depthOfEntries entries + 1
  | tagged _ content => depth content + 1
  | _ => 1

def depthOfList : List Datum → Nat
  | [] => 0
  | d :: ds => max (depth d) (depthOfList ds)

def depthOfEntries : List (Datum × Datum) → Nat
  | [] => 0
  | (_, d) :: es => max (depth d) (depthOfEntries es)

end

/-- The words that a plain scalar uses for no value. -/
def isNullWord (s : String) : Bool := ["~", "null", "Null", "NULL"].contains s

/-- No value, where a value may be missing. -/
def isAbsent : Datum → Bool
  | null => true
  | bare s => s.isEmpty || isNullWord s
  | _ => false

/-- Whether there is no value, where a value may be missing. A tag shows that there is one, unless
it says that there is none, and then nothing else may stand there. -/
def absent? : Datum → Option Bool
  | tagged .null (bare s) => if isNullWord s then some true else none
  | d => some d.isAbsent

/-- The value under tags. -/
def untagged : Datum → Datum
  | tagged _ d => d.untagged
  | d => d

/-- The text of a scalar, however it is written. -/
def text? (d : Datum) : Option String :=
  match d.untagged with
  | text s => some s
  | escaped s => some s
  | bare s => some s
  | literal s => some s
  | _ => none

/-- The text of a scalar that may spell something else than a text: one without quotes, or one over
lines of its own under a tag that says so. -/
def spelling? (tag : Tag) : Datum → Option String
  | bare s => some s
  | tagged _ (bare s) => some s
  | tagged t (literal s) => if t = tag then some s else none
  | _ => none

/-- The truth value of a word. -/
def wordFlag? (s : String) : Option Bool :=
  if ["true", "True", "TRUE"].contains s then some true
  else if ["false", "False", "FALSE"].contains s then some false
  else none

/-- The truth value of a scalar. -/
def flag? : Datum → Option Bool
  | flag b => some b
  | d => (d.spelling? .flag).bind wordFlag?

/-- More than one digit, the first of them 0: text, not a number. -/
def hasLeadingZero : List Char → Bool
  | '0' :: d :: ds => (d :: ds).all Char.isDigit
  | _ => false

/-- The magnitude that a plain scalar without sign spells. -/
def magnitude? (limit : Nat) (s : List Char) : Option Nat :=
  let inRadix (mark : String) (radix : Nat) : Option Nat := do
    let ds ← Text.afterMark? mark.toList s
    guard !(ds.head?.any fun c => c == '+' || c == '-')
    (Numeral.unsigned radix limit ds).toOption
  (inRadix "0x" 16).or <| (inRadix "0o" 8).or <| (inRadix "0b" 2).or <| do
    guard !(s.head?.any fun c => c == '+' || c == '-')
    guard !hasLeadingZero s
    (Numeral.unsigned 10 limit s).toOption

/-- The unsigned number of 64 bits that a plain scalar spells. -/
def scalarNatural? (s : String) : Option Nat :=
  match s.toList with
  | '+' :: ds => magnitude? (Bits.limit 64) ds
  | ds => magnitude? (Bits.limit 64) ds

/-- The signed number of 64 bits that a plain scalar spells. -/
def scalarSigned? (s : String) : Option Int :=
  match s.toList with
  | '+' :: ds => (magnitude? (Bits.limit 63) ds).map Int.ofNat
  | '-' :: ds => (magnitude? (Bits.limit 63 + 1) ds).map fun n => -(n : Int)
  | ds => (magnitude? (Bits.limit 63) ds).map Int.ofNat

/-- The unsigned number of so many bits in a scalar. -/
def natural? (bits : Nat) (d : Datum) : Option Nat :=
  let n? : Option Nat :=
    match d with
    | integer n => if 0 ≤ n then some n.toNat else none
    | d => (d.spelling? .integer).bind scalarNatural?
  n?.filter (· < Bits.limit bits)

/-- The signed number of so many bits in a scalar. -/
def signed? (bits : Nat) (d : Datum) : Option Int :=
  let n? : Option Int :=
    match d with
    | integer n => some n
    | d => (d.spelling? .integer).bind scalarSigned?
  n?.filter fun n => -(Bits.limit (bits - 1) : Int) ≤ n && n < (Bits.limit (bits - 1) : Int)

/-- The items of a list; a missing value is a list without items. -/
def items? (d : Datum) : Option (List Datum) :=
  match d.untagged with
  | list items => some items
  | bare "" => some []
  | _ => none

/-- The entries of a record; a missing value is a record without entries. -/
def entries? (d : Datum) : Option (List (Datum × Datum)) :=
  match d.untagged with
  | record entries => some entries
  | bare "" => some []
  | _ => none

/-- The values of a record under the names that it may have. Other names are passed over, a name
of its own may come only once. -/
def fields? (names : List String) (d : Datum) : Option (List (String × Datum)) := do
  let entries ← (← d.entries?).mapM fun (k, v) => k.text?.map (·, v)
  let known := entries.filter fun (k, _) => names.contains k
  guard (known.map Prod.fst).Nodup
  return known

/-- A record with text keys. -/
def ofFields (entries : List (String × Datum)) : Datum :=
  record (entries.map fun (k, v) => (text k, v))

end Datum

/-- The values of a record by name. -/
abbrev Fields := List (String × Datum)

namespace Fields

/-- The value of a name that must be there. -/
def required (fs : Fields) (name : String) (read : Datum → Option α) : Option α :=
  (fs.lookup name).bind read

/-- The value of a name, or a default for one that is not there. -/
def withDefault (fs : Fields) (name : String) (default : α) (read : Datum → Option α) : Option α :=
  match fs.lookup name with
  | none => some default
  | some d => read d

/-- The value of a name that may be missing, or say so itself. -/
def optional (fs : Fields) (name : String) (read : Datum → Option α) : Option (Option α) :=
  match fs.lookup name with
  | none => some none
  | some d => do
    if ← d.absent? then return none
    return some (← read d)

end Fields

/-- The items of a list, each of which must be readable. -/
def Datum.listOf? (read : Datum → Option α) (d : Datum) : Option (List α) := do
  (← d.items?).mapM read

end RegisterMap
