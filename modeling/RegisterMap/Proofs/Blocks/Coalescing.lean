import Mathlib.Algebra.Group.Nat.Defs
import RegisterMap.Proofs.Order
import RegisterMap.Proofs.Success

/-!
# Coalescing in order

Observations that come in the order of their addresses are never refused. `Coalescing.step` is what
one of them does then, `Coalescing.Running` what it keeps: the spans begin in order, and the current
span and the blocks are regular. Each step adds to the bytes taken so far exactly the cells that the
observation touches (`running_step`, `has_step`), and so does a run of them (`run_addAll`).
-/

namespace RegisterMap

/-! ## Bytes and cells -/

/-- The byte lies in the observation. -/
def Observation.Has (o : Observation) (x : Nat) : Prop := o.address ≤ x ∧ x < o.address + o.size

/-- The byte lies in the span. -/
def Span.Has (s : Span) (x : Nat) : Prop := s.start ≤ x ∧ x < s.fin

/-- The byte lies in the block. -/
def AddressBlock.Has (b : AddressBlock) (x : Nat) : Prop := b.offset ≤ x ∧ x < b.fin

/-- The bytes lie in one cell of `m` bytes; cells begin at the multiples of `m`. -/
def SameCell (m x y : Nat) : Prop := x / m = y / m

theorem sameCell_one {x y : Nat} : SameCell 1 x y ↔ x = y := by
  simp [SameCell]

/-- The block starts and ends with a cell, and its width in bytes is a power of two that divides
start and size. -/
structure AddressBlock.IsRegular (m : Nat) (b : AddressBlock) : Prop where
  dvd_offset : m ∣ b.offset
  dvd_size : m ∣ b.size
  width_eq : ∃ k, b.width = 8 * 2 ^ k ∧ 2 ^ k ∣ b.offset ∧ 2 ^ k ∣ b.size
  usage_eq : b.usage = "registers"

namespace Span

variable {m : Nat} {s t : Span}

/-- The span starts and ends with a cell. -/
def IsAligned (m : Nat) (s : Span) : Prop := m ∣ s.start ∧ m ∣ s.size

theorem align_of_le_one (h : m ≤ 1) : s.align m = s := by
  unfold align
  rw [if_neg (by omega)]

theorem start_align (h : 1 < m) : (s.align m).start = s.start / m * m := by
  unfold align
  rw [if_pos h]
  show s.start - s.start % m = s.start / m * m
  have := Nat.div_add_mod s.start m
  have := Nat.mul_comm m (s.start / m)
  omega

theorem fin_align (h : 1 < m) : (s.align m).fin = (s.fin + m - 1) / m * m := by
  have hround : s.fin ≤ (s.fin + m - 1) / m * m := by
    have h1 := Nat.div_add_mod (s.fin + m - 1) m
    have h2 := Nat.mod_lt (s.fin + m - 1) (show 0 < m by omega)
    have h3 := Nat.mul_comm m ((s.fin + m - 1) / m)
    omega
  unfold align
  rw [if_pos h]
  show s.start - s.start % m + ((s.fin + m - 1) / m * m - (s.start - s.start % m)) = _
  have : s.start ≤ s.fin := Nat.le_add_right _ _
  omega

theorem isAligned_align (s : Span) : (s.align m).IsAligned (max 1 m) := by
  by_cases h : 1 < m
  · rw [Nat.max_eq_right (Nat.le_of_lt h)]
    have hstart : m ∣ (s.align m).start := start_align h ▸ Nat.dvd_mul_left _ _
    have hfin : m ∣ (s.align m).fin := fin_align h ▸ Nat.dvd_mul_left _ _
    exact ⟨hstart, (Nat.dvd_add_right hstart).1 hfin⟩
  · rw [Nat.max_eq_left (by omega)]
    exact ⟨Nat.one_dvd _, Nat.one_dvd _⟩

/-- Widening a span takes in the cells that it touches. -/
theorem has_align (hs : 0 < s.size) (x : Nat) :
    (s.align m).Has x ↔ ∃ y, s.Has y ∧ SameCell (max 1 m) x y := by
  by_cases h : 1 < m
  · rw [Nat.max_eq_right (Nat.le_of_lt h)]
    have hm : 0 < m := by omega
    have hlast : (s.fin + m - 1) / m = (s.fin - 1) / m + 1 := by
      have hfin : 0 < s.fin := Nat.lt_of_lt_of_le hs (Nat.le_add_left _ _)
      rw [← Nat.add_div_right _ hm]
      congr 1
      omega
    unfold Has
    rw [start_align h, fin_align h, hlast, ← Nat.le_div_iff_mul_le hm, ← Nat.div_lt_iff_lt_mul hm,
      Nat.lt_succ_iff]
    constructor
    · rintro ⟨hlo, hhi⟩
      -- the first byte of the span in the cell, if the cell does not begin in it
      refine ⟨max s.start (x / m * m), ⟨Nat.le_max_left _ _, ?_⟩, ?_⟩
      · have := (Nat.le_div_iff_mul_le hm).1 hhi
        have : 0 < s.size := hs
        unfold fin at *
        omega
      · have hstart : s.start < (x / m + 1) * m :=
          (Nat.div_lt_iff_lt_mul hm).1 (Nat.lt_succ_of_le hlo)
        have hcell : x / m * m < (x / m + 1) * m := by
          rw [Nat.succ_mul]
          omega
        exact (Nat.div_eq_of_lt_le (Nat.le_max_right _ _) (Nat.max_lt.2 ⟨hstart, hcell⟩)).symm
    · rintro ⟨y, ⟨hlo, hhi⟩, hxy⟩
      have : x / m = y / m := hxy
      rw [this]
      exact ⟨Nat.div_le_div_right hlo, Nat.div_le_div_right (by omega)⟩
  · rw [align_of_le_one (by omega), Nat.max_eq_left (by omega)]
    simp only [sameCell_one, exists_eq_right']

theorem has_reach {b : Nat} (h : t.start ≤ b) (x : Nat) :
    (t.reach b).Has x ↔ t.Has x ∨ (t.fin ≤ x ∧ x < b) := by
  unfold Has reach fin
  simp only
  omega

theorem IsAligned.reach {b : Nat} (h : t.IsAligned m) (hb : m ∣ b) : (t.reach b).IsAligned m := by
  refine ⟨h.1, Nat.dvd_sub ?_ h.1⟩
  have hfin : m ∣ t.fin := (Nat.dvd_add_right h.1).2 h.2
  show m ∣ max t.fin b
  rcases Nat.le_total t.fin b with hle | hle
  · rwa [Nat.max_eq_right hle]
  · rwa [Nat.max_eq_left hle]

/-- Aligned spans that begin in order do so after the second is widened. -/
theorem IsAligned.start_le_align (h : t.IsAligned (max 1 m)) (hs : t.start ≤ s.start) :
    t.start ≤ (s.align m).start := by
  by_cases hm : 1 < m
  · rw [Nat.max_eq_right (Nat.le_of_lt hm)] at h
    obtain ⟨k, hk⟩ := h.1
    rw [start_align hm, hk, Nat.mul_comm]
    refine Nat.mul_le_mul_right _ ((Nat.le_div_iff_mul_le (by omega)).2 ?_)
    rwa [Nat.mul_comm, ← hk]
  · rwa [align_of_le_one (by omega)]

theorem isRegular_toBlock (preferred : Nat) (h : t.IsAligned m) :
    (t.toBlock preferred).IsRegular m where
  dvd_offset := h.1
  dvd_size := h.2
  width_eq := by
    obtain ⟨hstart, hsize⟩ :=
      t.mod_alignment (if preferred ≠ 0 then preferred else t.widths.log2).log2
    rw [Nat.one_shiftLeft] at hstart hsize
    exact ⟨_, Nat.shiftLeft_eq _ _, Nat.dvd_of_mod_eq_zero hstart, Nat.dvd_of_mod_eq_zero hsize⟩
  usage_eq := rfl

theorem has_toBlock (preferred : Nat) (t : Span) (x : Nat) :
    (t.toBlock preferred).Has x ↔ t.Has x := Iff.rfl

/-- An observation on a span adds its bytes to those of the span. -/
theorem has_take {o : Observation} (h : s.takes o = true) (x : Nat) :
    (s.take o).Has x ↔ s.Has x ∨ o.Has x := by
  have hlo : s.start ≤ o.address := by simp [takes] at h; exact h.1.2
  have hhi : o.address < s.fin := by simp [takes] at h; exact h.2
  show (s.reach (o.address + o.size)).Has x ↔ _
  rw [has_reach (by omega)]
  unfold Has Observation.Has
  omega

theorem size_take {o : Observation} (h : 0 < s.size) : 0 < (s.take o).size := by
  show 0 < max s.fin (o.address + o.size) - s.start
  unfold fin
  omega

theorem has_ofObservation (o : Observation) (x : Nat) : (ofObservation o).Has x ↔ o.Has x := Iff.rfl

end Span

namespace Coalescing

theorem start_eq_ok (preferred forced : Nat) (h : forced ∈ [0, 8, 16, 32]) :
    start preferred forced = .ok { preferred := preferred / 8, multiple := forced / 8 } := by
  rw [start, if_pos (by simpa using h)]

theorem start_eq_error (preferred forced : Nat) (h : forced ∉ [0, 8, 16, 32]) :
    start preferred forced = fail (.blockMultiple forced) := by
  rw [start, if_neg (by simpa using h)]

/-! ## Steps -/

/-- The bytes of a cell, on which blocks start and end. -/
def cell (c : Coalescing) : Nat := max 1 c.multiple

/-- What absorbing a span does when it does not begin before the current one. -/
def grow (c : Coalescing) (s : Span) : Coalescing :=
  let aligned := s.align c.multiple
  match c.current with
  | none => { c with current := some aligned }
  | some t =>
    if c.joins t aligned then { c with current := some (t.reach aligned.fin) }
    else { c.complete with current := some aligned }

/-- What absorbing the pending span does when it does not begin before the current one. -/
def settle (c : Coalescing) : Coalescing :=
  match c.pending with
  | none => c
  | some s => { c with pending := none }.grow s

/-- What an observation does that does not come before the pending span. -/
def step (c : Coalescing) (o : Observation) : Coalescing :=
  if o.size = 0 then c
  else
    match c.pending.filter (·.takes o) with
    | some s => { c with pending := some (s.take o) }
    | none => { c.settle with pending := some (.ofObservation o) }

theorem step_of_empty {c : Coalescing} {o : Observation} (ho : o.size = 0) : c.step o = c := by
  unfold step
  rw [if_pos ho]

theorem step_of_takes {c : Coalescing} {o : Observation} {s : Span} (ho : o.size ≠ 0)
    (h : c.pending.filter (·.takes o) = some s) :
    c.step o = { c with pending := some (s.take o) } := by
  unfold step
  rw [if_neg ho, h]

theorem step_of_not_takes {c : Coalescing} {o : Observation} (ho : o.size ≠ 0)
    (h : c.pending.filter (·.takes o) = none) :
    c.step o = { c.settle with pending := some (.ofObservation o) } := by
  unfold step
  rw [if_neg ho, h]

theorem absorb_eq_grow {c : Coalescing} {s : Span} (h : ∀ t ∈ c.current, t.start ≤ s.start) :
    c.absorb s = .ok (c.grow s) := by
  unfold absorb grow
  cases hc : c.current with
  | none => rfl
  | some t =>
    simp only
    rw [if_neg (Nat.not_lt.2 (h t hc))]
    split <;> rfl

/-- What holds between two observations, the next of which comes at `a` or later. -/
structure Running (c : Coalescing) (a : Nat) : Prop where
  pending_pos : ∀ s ∈ c.pending, 0 < s.size
  pending_le : ∀ s ∈ c.pending, s.start ≤ a
  current_le : ∀ t ∈ c.current, t.start ≤ a
  current_le_pending : ∀ t ∈ c.current, ∀ s ∈ c.pending, t.start ≤ s.start
  current_aligned : ∀ t ∈ c.current, t.IsAligned c.cell
  blocks_regular : ∀ b ∈ c.blocks, b.IsRegular c.cell

theorem running_start (preferred multiple : Nat) :
    Running { preferred, multiple } 0 where
  pending_pos := nofun
  pending_le := nofun
  current_le := nofun
  current_le_pending := nofun
  current_aligned := nofun
  blocks_regular := nofun

theorem Running.mono {c : Coalescing} {a b : Nat} (h : c.Running a) (hab : a ≤ b) :
    c.Running b :=
  { h with
    pending_le := fun s hs => Nat.le_trans (h.pending_le s hs) hab
    current_le := fun t ht => Nat.le_trans (h.current_le t ht) hab }

/-- What holds between two observations holds without a pending span. -/
theorem Running.idle {c : Coalescing} {a : Nat} (h : c.Running a) :
    Running { c with pending := none } a :=
  { h with pending_pos := nofun, pending_le := nofun, current_le_pending := nofun }

/-- The byte lies in a block or in the current span. -/
def Took (c : Coalescing) (x : Nat) : Prop :=
  (∃ b ∈ c.blocks, b.Has x) ∨ ∃ t ∈ c.current, t.Has x

/-- The byte lies in a block, in the current span, or in a cell that the pending span touches. -/
def Has (c : Coalescing) (x : Nat) : Prop :=
  c.Took x ∨ ∃ s ∈ c.pending, ∃ y, s.Has y ∧ SameCell c.cell x y

/-! ### Absorbing a span -/

@[simp] theorem cell_grow (c : Coalescing) (s : Span) : (c.grow s).cell = c.cell := by
  unfold grow complete
  cases hc : c.current with
  | none => rfl
  | some t =>
    simp only
    split <;> rfl

theorem le_fin_of_joins {c : Coalescing} {t s : Span} (h : c.joins t s = true) :
    s.start ≤ t.fin := by
  simp only [joins, Bool.and_eq_true, Bool.or_eq_true, decide_eq_true_eq, beq_iff_eq] at h
  omega

theorem took_complete (c : Coalescing) (x : Nat) : c.complete.Took x ↔ c.Took x := by
  unfold complete Took
  cases hc : c.current with
  | none => simp [hc]
  | some t => simp [or_comm, Span.has_toBlock]

theorem took_grow {c : Coalescing} {s : Span} (hs : 0 < s.size)
    (hstart : ∀ t ∈ c.current, t.start ≤ s.start)
    (haligned : ∀ t ∈ c.current, t.IsAligned c.cell) (x : Nat) :
    (c.grow s).Took x ↔ c.Took x ∨ ∃ y, s.Has y ∧ SameCell c.cell x y := by
  rw [cell, ← Span.has_align hs]
  unfold grow
  cases hc : c.current with
  | none => simp [Took, hc]
  | some t =>
    simp only
    have hle := (haligned t hc).start_le_align (hstart t hc)
    split
    · rename_i hjoin
      have hfin := le_fin_of_joins hjoin
      have hreach : (t.reach (s.align c.multiple).fin).Has x ↔
          t.Has x ∨ (s.align c.multiple).Has x := by
        have hle' : t.start ≤ (s.align c.multiple).fin :=
          Nat.le_trans hle (Nat.le_add_right _ _)
        rw [Span.has_reach hle']
        unfold Span.Has
        omega
      simp only [Took, hc, Option.mem_some_iff, exists_eq_left', hreach, or_assoc]
    · have hcomplete : c.complete.blocks = c.blocks ++ [t.toBlock c.preferred] := by
        simp [complete, hc]
      simp only [Took, hc, hcomplete, List.mem_append, List.mem_singleton, or_and_right, exists_or,
        exists_eq_left, Option.mem_some_iff, exists_eq_left', Span.has_toBlock]

@[simp] theorem pending_grow (c : Coalescing) (s : Span) : (c.grow s).pending = c.pending := by
  unfold grow complete
  cases hc : c.current with
  | none => rfl
  | some t =>
    simp only
    split <;> rfl

/-- The current span after another was absorbed begins no later than that and is aligned. -/
theorem current_grow {c : Coalescing} {s : Span} (hstart : ∀ t ∈ c.current, t.start ≤ s.start)
    (haligned : ∀ t ∈ c.current, t.IsAligned c.cell) :
    ∀ u ∈ (c.grow s).current, u.start ≤ s.start ∧ u.IsAligned c.cell := by
  have hs := s.start_align_le c.multiple
  have hs' : (s.align c.multiple).IsAligned c.cell := s.isAligned_align
  unfold grow
  cases hc : c.current with
  | none =>
    rintro u ⟨⟩
    exact ⟨hs, hs'⟩
  | some t =>
    simp only
    split
    · rintro u ⟨⟩
      exact ⟨hstart t hc, (haligned t hc).reach ((Nat.dvd_add_right hs'.1).2 hs'.2)⟩
    · rintro u ⟨⟩
      exact ⟨hs, hs'⟩

theorem regular_complete {c : Coalescing} (haligned : ∀ t ∈ c.current, t.IsAligned c.cell)
    (hblocks : ∀ b ∈ c.blocks, b.IsRegular c.cell) :
    ∀ b ∈ c.complete.blocks, b.IsRegular c.cell := by
  unfold complete
  cases hc : c.current with
  | none => exact hblocks
  | some t =>
    intro b hb
    rcases List.mem_append.1 hb with hb | hb
    · exact hblocks b hb
    · cases List.mem_singleton.1 hb
      exact Span.isRegular_toBlock _ (haligned t hc)

theorem regular_grow {c : Coalescing} {s : Span} (haligned : ∀ t ∈ c.current, t.IsAligned c.cell)
    (hblocks : ∀ b ∈ c.blocks, b.IsRegular c.cell) :
    ∀ b ∈ (c.grow s).blocks, b.IsRegular c.cell := by
  have hcomplete := regular_complete haligned hblocks
  unfold grow
  cases hc : c.current with
  | none => exact hblocks
  | some t =>
    simp only
    split
    · exact hblocks
    · exact hcomplete

/-! ### Absorbing the pending span -/

theorem flush_eq_settle {c : Coalescing} {a : Nat} (h : c.Running a) :
    c.flush = .ok c.settle := by
  unfold flush settle
  cases hp : c.pending with
  | none => rfl
  | some s => exact absorb_eq_grow fun t ht => h.current_le_pending t ht s hp

@[simp] theorem cell_settle (c : Coalescing) : c.settle.cell = c.cell := by
  unfold settle
  split
  · rfl
  · rw [cell_grow]
    rfl

@[simp] theorem pending_settle (c : Coalescing) : c.settle.pending = none := by
  unfold settle
  split
  · assumption
  · rw [pending_grow]

/-- The current span after the pending one was absorbed began no later than that. -/
theorem current_settle {c : Coalescing} {a : Nat} (h : c.Running a) :
    ∀ u ∈ c.settle.current, u.start ≤ a ∧ u.IsAligned c.cell := by
  unfold settle
  split
  · exact fun t ht => ⟨h.current_le t ht, h.current_aligned t ht⟩
  · rename_i s hp
    intro u hu
    obtain ⟨hstart, haligned⟩ := current_grow (c := { c with pending := none })
      (fun t ht => h.current_le_pending t ht s hp) h.current_aligned u hu
    exact ⟨Nat.le_trans hstart (h.pending_le s hp), haligned⟩

theorem regular_settle {c : Coalescing} {a : Nat} (h : c.Running a) :
    ∀ b ∈ c.settle.blocks, b.IsRegular c.cell := by
  unfold settle
  split
  · exact h.blocks_regular
  · exact regular_grow (c := { c with pending := none }) h.current_aligned h.blocks_regular

theorem running_settle {c : Coalescing} {a : Nat} (h : c.Running a) : c.settle.Running a where
  pending_pos := by simp
  pending_le := by simp
  current_le u hu := (current_settle h u hu).1
  current_le_pending := by simp
  current_aligned u hu := by
    rw [cell_settle]
    exact (current_settle h u hu).2
  blocks_regular b hb := by
    rw [cell_settle]
    exact regular_settle h b hb

/-- Absorbing the pending span keeps the bytes. -/
theorem took_settle {c : Coalescing} {a : Nat} (h : c.Running a) (x : Nat) :
    c.settle.Took x ↔ c.Has x := by
  unfold settle Has
  cases hp : c.pending with
  | none => simp
  | some s =>
    have hgrow := took_grow (c := { c with pending := none }) (h.pending_pos s hp)
      (fun t ht => h.current_le_pending t ht s hp) h.current_aligned x
    simp only [Option.mem_some_iff, exists_eq_left']
    exact hgrow

/-! ### Taking observations -/

/-- An observation that does not come before the others is taken. -/
theorem add_eq_step {c : Coalescing} {a : Nat} (h : c.Running a) (o : Observation) :
    c.add o = .pure (c.step o) := by
  unfold add step
  by_cases hsize : o.size = 0
  · simp only [if_pos hsize]
  · simp only [if_neg hsize]
    cases hf : c.pending.filter (·.takes o) with
    | some s => rfl
    | none =>
      simp only [flush_eq_settle h]

@[simp] theorem cell_step (c : Coalescing) (o : Observation) : (c.step o).cell = c.cell := by
  unfold step
  split
  · rfl
  · split
    · rfl
    · exact cell_settle c

/-- An observation keeps the order of the spans, and the blocks regular. -/
theorem running_step {c : Coalescing} {a : Nat} (h : c.Running a) {o : Observation}
    (ho : a ≤ o.address) : (c.step o).Running o.address := by
  unfold step
  by_cases hsize : o.size = 0
  · rw [if_pos hsize]
    exact h.mono ho
  rw [if_neg hsize]
  cases hf : c.pending.filter (·.takes o) with
  | some s =>
    -- the pending span grows at its end
    obtain ⟨hs, -⟩ := Option.filter_eq_some_iff.1 hf
    have h := h.mono ho
    refine { h with pending_pos := ?_, pending_le := ?_, current_le_pending := ?_ }
    · rintro u ⟨⟩
      exact Span.size_take (h.pending_pos s hs)
    · rintro u ⟨⟩
      exact h.pending_le s hs
    · rintro t ht u ⟨⟩
      exact h.current_le_pending t ht s hs
  | none =>
    -- the observation is the new pending span
    have h := (running_settle h).mono ho
    refine { h with pending_pos := ?_, pending_le := ?_, current_le_pending := ?_ }
    · rintro u ⟨⟩
      exact Nat.pos_of_ne_zero hsize
    · rintro u ⟨⟩
      exact Nat.le_refl _
    · rintro t ht u ⟨⟩
      exact h.current_le t ht

/-- An observation adds the cells that it touches. -/
theorem has_step {c : Coalescing} {a : Nat} (h : c.Running a) (o : Observation) (x : Nat) :
    (c.step o).Has x ↔ c.Has x ∨ ∃ y, o.Has y ∧ SameCell c.cell x y := by
  unfold step
  by_cases hsize : o.size = 0
  · rw [if_pos hsize]
    have hnone : ¬∃ y, o.Has y ∧ SameCell c.cell x y := by
      rintro ⟨y, ⟨hlo, hhi⟩, -⟩
      omega
    simp only [hnone, or_false]
  rw [if_neg hsize]
  cases hf : c.pending.filter (·.takes o) with
  | some s =>
    obtain ⟨hs, htakes⟩ := Option.filter_eq_some_iff.1 hf
    have htouch : (∃ y, (s.take o).Has y ∧ SameCell c.cell x y) ↔
        (∃ y, s.Has y ∧ SameCell c.cell x y) ∨ ∃ y, o.Has y ∧ SameCell c.cell x y := by
      simp only [Span.has_take htakes, or_and_right, exists_or]
    unfold Has
    simp only [hs, Option.mem_some_iff, exists_eq_left', or_assoc, ← htouch]
    exact Iff.rfl
  | none =>
    have hsettle := took_settle h x
    rw [← hsettle]
    show c.settle.Took x ∨ (∃ s ∈ some (Span.ofObservation o), ∃ y, s.Has y ∧ SameCell _ x y) ↔ _
    simp only [Option.mem_some_iff, exists_eq_left', Span.has_ofObservation]
    rw [← cell_settle c]
    exact Iff.rfl

/-! ### A run of observations -/

/-- Observations in order are all taken, and add the cells that they touch. -/
theorem run_addAll {os : List Observation} (hos : os.Pairwise fun o p => o.address ≤ p.address) :
    ∀ {c : Coalescing} {a : Nat}, c.Running a → (∀ o ∈ os, a ≤ o.address) →
      c.addAll os = .ok (os.foldl step c) ∧ (os.foldl step c).cell = c.cell ∧
        (∃ a', (os.foldl step c).Running a') ∧
        ∀ x, (os.foldl step c).Has x ↔ c.Has x ∨ ∃ o ∈ os, ∃ y, o.Has y ∧ SameCell c.cell x y := by
  induction hos with
  | nil =>
    intro c a h _
    exact ⟨rfl, rfl, ⟨a, h⟩, fun x => by simp⟩
  | @cons o os ho _ ih =>
    intro c a h ha
    have hrun := running_step h (ha o (List.mem_cons_self ..))
    obtain ⟨hadd, hcell, hrun', hhas⟩ := ih hrun ho
    refine ⟨?_, hcell.trans (cell_step c o), hrun', fun x => ?_⟩
    · rw [addAll, List.foldlM_cons, add_eq_step h]
      exact hadd
    · rw [List.foldl_cons, hhas, has_step h, cell_step]
      simp only [List.mem_cons, or_and_right, exists_or, exists_eq_left, or_assoc]

/-- What every step keeps holds behind the last of several observations in order. -/
theorem foldl_step_induction {os : List Observation}
    (hos : os.Pairwise fun o p => o.address ≤ p.address) {P : Coalescing → Prop}
    (hstep : ∀ c a, ∀ o ∈ os, c.Running a → P c → P (c.step o)) :
    ∀ {c : Coalescing} {a : Nat}, c.Running a → (∀ o ∈ os, a ≤ o.address) → P c →
      P (os.foldl step c) := by
  induction hos with
  | nil => exact fun _ _ h => h
  | @cons o os ho _ ih =>
    intro c a hrun ha h
    have hrest : ∀ c a, ∀ p ∈ os, c.Running a → P c → P (c.step p) :=
      fun c a p hp => hstep c a p (List.mem_cons_of_mem _ hp)
    exact ih hrest (running_step hrun (ha o List.mem_cons_self)) ho
      (hstep c a o List.mem_cons_self hrun h)

/-! ## The blocks of a run -/

theorem mem_dedup {b : AddressBlock} {bs : List AddressBlock} : b ∈ dedup bs ↔ b ∈ bs := by
  fun_induction dedup bs with
  | case1 => rfl
  | case2 => rfl
  | case3 b bs ih => simp [ih]
  | case4 a b bs hne ih => simp [ih]

/-- A sorted list without adjacent equals is strictly sorted. -/
theorem pairwise_dedup {bs : List AddressBlock} (h : bs.Pairwise fun a b => (a.order b).isLE) :
    (dedup bs).Pairwise fun a b => a.order b = .lt := by
  fun_induction dedup bs with
  | case1 => exact .nil
  | case2 => exact List.pairwise_singleton _ _
  | case3 b bs ih => exact ih (List.pairwise_cons.1 h).2
  | case4 a b bs hne ih =>
    obtain ⟨ha, hbs⟩ := List.pairwise_cons.1 h
    refine List.pairwise_cons.2 ⟨fun d hd => ?_, ih hbs⟩
    have hab : a.order b = .lt :=
      AddressBlock.order_eq_lt hne (ha b (List.mem_cons_self ..))
    rcases List.mem_cons.1 (mem_dedup.1 hd) with rfl | hd
    · exact hab
    · exact Std.TransCmp.lt_of_lt_of_isLE hab ((List.pairwise_cons.1 hbs).1 d hd)

/-- The blocks that are complete, in order. -/
def sortedBlocks (c : Coalescing) : List AddressBlock :=
  dedup (c.blocks.mergeSort fun a b => (a.order b).isLE)

theorem mem_sortedBlocks {c : Coalescing} {b : AddressBlock} :
    b ∈ c.sortedBlocks ↔ b ∈ c.blocks := by
  rw [sortedBlocks, mem_dedup, List.mem_mergeSort]

theorem pairwise_sortedBlocks (c : Coalescing) :
    c.sortedBlocks.Pairwise fun a b => a.order b = .lt :=
  pairwise_dedup (pairwise_mergeSort_isLE _ _)

/-- The blocks when nothing more comes are those of all spans. -/
theorem finish_eq_ok {c : Coalescing} {a : Nat} (h : c.Running a) :
    c.finish = .ok c.settle.complete.sortedBlocks := by
  rw [finish, flush_eq_settle h]
  rfl

/-- A run ends in blocks that hold the bytes taken, are regular, and come in strict order. -/
theorem finish_run {c : Coalescing} {a : Nat} (h : c.Running a) :
    ∃ bs, c.finish = .ok bs ∧ (∀ x, (∃ b ∈ bs, b.Has x) ↔ c.Has x) ∧
      (∀ b ∈ bs, b.IsRegular c.cell) ∧ bs.Pairwise fun a b => a.order b = .lt := by
  have hr := running_settle h
  refine ⟨c.settle.complete.sortedBlocks, finish_eq_ok h, fun x => ?_, fun b hb => ?_,
    pairwise_sortedBlocks _⟩
  · have hnone : c.settle.complete.current = none := by
      unfold complete
      split
      · assumption
      · rfl
    have htook := took_complete c.settle x
    rw [took_settle h, Took, hnone] at htook
    simpa [mem_sortedBlocks] using htook
  · rw [← cell_settle c]
    exact regular_complete hr.current_aligned hr.blocks_regular b (mem_sortedBlocks.1 hb)

end Coalescing

end RegisterMap
