import RegisterMap.Outcome

/-!
# Address blocks

Contiguous ranges of a peripheral's address space, and the coalescing of observed register
accesses into them. Observations come in order of their addresses. Those that overlap grow one
pending span; spans that touch grow one block.
-/

namespace RegisterMap

/-- A contiguous range of addresses relative to a peripheral. -/
structure AddressBlock where
  offset : Nat
  /-- Size in bytes. -/
  size : Nat
  /-- Width of an access in bits. -/
  width : Nat
  usage : String := "registers"
  deriving DecidableEq, Repr, Inhabited

namespace AddressBlock

/-- The first byte past the block. -/
def fin (b : AddressBlock) : Nat := b.offset + b.size

/-- The order of blocks: by offset, size, width and usage. -/
def order (a b : AddressBlock) : Ordering :=
  (compare a.offset b.offset).then ((compare a.size b.size).then
    ((compare a.width b.width).then (compare a.usage b.usage)))

end AddressBlock

/-- Bytes that are accessed with one width. -/
structure Observation where
  address : Nat
  size : Nat
  /-- Width of the access in bytes. -/
  width : Nat
  access : Access
  /-- Observations with different tokens never share a block. -/
  isolation : Nat
  deriving DecidableEq, Repr

/-- A run of bytes on its way to a block. -/
structure Span where
  start : Nat
  size : Nat
  /-- Bit `n` is set when an access of `n` bytes was seen. -/
  widths : Nat
  access : Access
  isolation : Nat
  deriving DecidableEq, Repr

namespace Span

/-- The first byte past the span. -/
def fin (s : Span) : Nat := s.start + s.size

/-- The span with its end moved up to an address, if that is further. -/
def reach (s : Span) (address : Nat) : Span := { s with size := max s.fin address - s.start }

theorem fin_le_fin_reach (s : Span) (address : Nat) : s.fin ≤ (s.reach address).fin := by
  simp only [fin, reach]
  omega

def ofObservation (o : Observation) : Span where
  start := o.address
  size := o.size
  widths := 1 <<< min o.width 63
  access := o.access
  isolation := o.isolation

/-- The observation lies on the span, at least with its first byte, and may share its block. -/
def takes (s : Span) (o : Observation) : Bool :=
  s.isolation == o.isolation && s.access.sharesBlock o.access &&
    s.start ≤ o.address && o.address < s.fin

/-- The span with an observation that lies on it. -/
def take (s : Span) (o : Observation) : Span :=
  { s.reach (o.address + o.size) with widths := s.widths ||| 1 <<< min o.width 63 }

/-- The span widened to multiples of `m` on both sides. -/
def align (m : Nat) (s : Span) : Span :=
  if 1 < m then
    let start := s.start - s.start % m
    { s with start, size := (s.fin + m - 1) / m * m - start }
  else s

theorem start_align_le (m : Nat) (s : Span) : (s.align m).start ≤ s.start := by
  unfold align
  split
  · exact Nat.sub_le _ _
  · exact Nat.le_refl _

theorem fin_le_fin_align (m : Nat) (s : Span) : s.fin ≤ (s.align m).fin := by
  unfold align
  split
  · rename_i h
    simp only [fin]
    have h1 := Nat.div_add_mod (s.start + s.size + m - 1) m
    have h2 := Nat.mod_lt (s.start + s.size + m - 1) (Nat.lt_trans Nat.zero_lt_one h)
    have h3 := Nat.mul_comm m ((s.start + s.size + m - 1) / m)
    omega
  · exact Nat.le_refl _

/-- The largest exponent up to the given one whose power of two divides start and size. -/
def alignment (s : Span) : Nat → Nat
  | 0 => 0
  | k + 1 =>
    if s.start % (1 <<< (k + 1)) == 0 && s.size % (1 <<< (k + 1)) == 0 then k + 1 else s.alignment k

theorem alignment_le (s : Span) (k : Nat) : s.alignment k ≤ k := by
  induction k with
  | zero => exact Nat.le_refl 0
  | succ k ih =>
    unfold alignment
    split
    · exact Nat.le_refl _
    · exact Nat.le_succ_of_le ih

theorem mod_alignment (s : Span) (k : Nat) :
    s.start % (1 <<< s.alignment k) = 0 ∧ s.size % (1 <<< s.alignment k) = 0 := by
  induction k with
  | zero => simp [alignment, Nat.mod_one]
  | succ k ih =>
    unfold alignment
    split
    · rename_i h
      simpa using h
    · exact ih

/-- The block of the span. Its access is the preferred one, or else the widest seen, narrowed
until it divides start and size. -/
def toBlock (preferred : Nat) (s : Span) : AddressBlock :=
  let bytes := if preferred ≠ 0 then preferred else s.widths.log2
  { offset := s.start, size := s.size, width := 8 <<< s.alignment bytes.log2 }

end Span

/-- The coalescing of observations, between two of them. -/
structure Coalescing where
  /-- Preferred access width in bytes, 0 for none. -/
  preferred : Nat
  /-- Blocks start and end at multiples of so many bytes, 0 for any. -/
  multiple : Nat
  pending : Option Span := none
  current : Option Span := none
  blocks : List AddressBlock := []
  lastIsolation : Nat := 0
  deriving DecidableEq, Repr

namespace Coalescing

/-- A coalescing without observations; both widths are in bits. -/
def start (preferred forced : Nat) : Except Failure Coalescing :=
  if [0, 8, 16, 32].contains forced then .ok { preferred := preferred / 8, multiple := forced / 8 }
  else fail (.blockMultiple forced)

/-- A token that has not been handed out before. -/
def newIsolation (c : Coalescing) : Nat × Coalescing :=
  (c.lastIsolation + 1, { c with lastIsolation := c.lastIsolation + 1 })

/-- Makes a block of the current span. -/
def complete (c : Coalescing) : Coalescing :=
  match c.current with
  | none => c
  | some s => { c with current := none, blocks := c.blocks ++ [s.toBlock c.preferred] }

/-- The span goes on where the current one ends, or lies on it. -/
def joins (c : Coalescing) (current s : Span) : Bool :=
  current.isolation == s.isolation && current.access.sharesBlock s.access &&
    (s.start < current.fin ||
      (s.start == current.fin && (c.preferred ≠ 0 || s.widths &&& current.widths != 0)))

/-- Grows the current span by another, or begins a new one with it. -/
def absorb (c : Coalescing) (s : Span) : Except Failure Coalescing :=
  let aligned := s.align c.multiple
  match c.current with
  | none => .ok { c with current := some aligned }
  | some current =>
    if s.start < current.start then fail (.goingBackwards s.start current.start)
    else if c.joins current aligned then .ok { c with current := some (current.reach aligned.fin) }
    else .ok { c.complete with current := some aligned }

/-- Absorbs the pending span. -/
def flush (c : Coalescing) : Except Failure Coalescing :=
  match c.pending with
  | none => .ok c
  | some s => { c with pending := none }.absorb s

/-- Takes one more observation. When the pending span cannot be absorbed it is lost. -/
def add (c : Coalescing) (o : Observation) : Outcome Coalescing :=
  if o.size = 0 then .pure c
  else
    match c.pending.filter (·.takes o) with
    | some s => .pure { c with pending := some (s.take o) }
    | none =>
      match c.flush with
      | .ok c => .pure { c with pending := some (.ofObservation o) }
      | .error f => { state := { c with pending := none }, failure := some f }

/-- Takes observations up to the first that is refused. -/
def addAll (c : Coalescing) (os : List Observation) : Except Failure Coalescing :=
  os.foldlM (fun c o => (c.add o).toExcept) c

/-- The list without elements that equal the one before them. -/
def dedup : List AddressBlock → List AddressBlock
  | [] => []
  | [b] => [b]
  | a :: b :: bs => if a = b then dedup (b :: bs) else a :: dedup (b :: bs)

/-- The blocks of all observations, in order. -/
def finish (c : Coalescing) : Except Failure (List AddressBlock) := do
  let c ← c.flush
  return dedup (c.complete.blocks.mergeSort fun a b => (a.order b).isLE)

end Coalescing

end RegisterMap
