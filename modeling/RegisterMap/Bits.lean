/-!
# Bits

Numbers of so many bits, and runs of bits in words of 64 bits.
-/

namespace RegisterMap.Bits

/-- The least number that so many bits do not hold. -/
def limit (bits : Nat) : Nat := 1 <<< bits

theorem limit_eq (bits : Nat) : limit bits = Nat.pow 2 bits := Nat.one_shiftLeft bits

theorem limit_pos (bits : Nat) : 0 < limit bits := limit_eq bits ▸ Nat.two_pow_pos bits

theorem limit_le {a b : Nat} (h : a ≤ b) : limit a ≤ limit b := by
  rw [limit_eq, limit_eq]
  exact Nat.pow_le_pow_right (by decide) h

/-- The bytes that so many bits take. The number is rounded up in 32 bits: one right below `2 ^ 32`
wraps around and takes none. -/
def bytes (width : Nat) : Nat := if width + 7 < limit 32 then (width + 7) / 8 else 0

/-- The low `width` bits of a word. -/
def lowMask (width : Nat) : Nat := limit (min width 64) - 1

/-- A run of `width` bits from bit `offset` on, as far as it lies in the word. -/
def runMask (offset width : Nat) : Nat :=
  if offset < 64 then lowMask width * limit offset % limit 64 else 0

end RegisterMap.Bits
