import RegisterMap.Bits
import RegisterMap.Numeral
import RegisterMap.Placeholder
import RegisterMap.Text.Case

/-!
# Enumerations

Named bit patterns of a field. A pattern is a value under a mask; the mask 0 is the default, which
stands for every value that no other enumeration of the field describes.
-/

namespace RegisterMap

/-- A named bit pattern. -/
structure Enumeration where
  name : String := ""
  description : String := ""
  value : Nat := 0
  mask : Nat := 0
  /-- The value as the description writes it. -/
  text : Option String := none
  deriving DecidableEq, Repr, Inhabited

/-- A value under a mask, in words of 64 bits. -/
structure BitPattern where
  value : Nat
  mask : Nat
  deriving DecidableEq, Repr

namespace BitPattern

/-- The pattern with one more bit at the right, a free one for `none`. -/
def push (p : BitPattern) (bit : Option Bool) : BitPattern where
  value := (2 * p.value + if bit = some true then 1 else 0) % Bits.limit 64
  mask := (2 * p.mask + if bit.isSome then 1 else 0) % Bits.limit 64

/-- The bit that a character of a pattern spells. -/
def bit? : Char → Option (Option Bool)
  | '0' => some (some false)
  | '1' => some (some true)
  | 'x' => some none
  | 'X' => some none
  | _ => none

/-- The pattern of the spelled bits, the last at bit 0. -/
def ofBits (bits : List (Option Bool)) : BitPattern := bits.foldl push ⟨0, 0⟩

theorem ofBits_concat (bits : List (Option Bool)) (bit : Option Bool) :
    ofBits (bits ++ [bit]) = (ofBits bits).push bit := by
  simp [ofBits]

/-- The pattern that follows one of the marks of binary numbers; underscores do not count. -/
def ofDigits? (digits : List Char) : Option BitPattern :=
  ((digits.filter (· != '_')).mapM bit?).map ofBits

end BitPattern

namespace Enumeration

/-- The enumeration with the value and mask that a text spells for a field of `width` bits. -/
def withText (e : Enumeration) (text : String) (width : Nat) : Except Failure Enumeration :=
  let s := Text.trim text
  match ["0b", "0B", "#"].findSome? fun m => Text.afterMark? m.toList s.toList with
  | some digits =>
    match BitPattern.ofDigits? digits with
    | some p => .ok { e with value := p.value, mask := p.mask, text := some s }
    | none => fail (.illegalBitPattern text)
  | none => do
    return { e with value := ← Numeral.number s, mask := Bits.lowMask width, text := some s }

/-- The enumeration as the default of its field. -/
def asDefault (e : Enumeration) : Enumeration := { e with value := 0, mask := 0, text := none }

def isDefault (e : Enumeration) : Bool := e.mask == 0

@[simp] theorem isDefault_asDefault (e : Enumeration) : e.asDefault.isDefault = true := rfl

/-- The value has the bits of the pattern. -/
def selects (e : Enumeration) (value : Nat) : Bool := value &&& e.mask == e.value

/-- The patterns agree, and so do the descriptions once the indexes are taken out. -/
def equivalent (a b : Enumeration) (i j : Option String) : Bool :=
  a.mask == b.mask && a.value == b.value &&
    Text.sameLetters (Placeholder.insert i a.description) (Placeholder.insert j b.description)

theorem equivalent_comm (a b : Enumeration) (i j : Option String) :
    a.equivalent b i j = b.equivalent a j i := by
  simp only [equivalent, Bool.beq_comm (a := a.mask), Bool.beq_comm (a := a.value),
    Text.sameLetters_comm (Placeholder.insert i a.description)]

end Enumeration

end RegisterMap
