import Mathlib.Data.List.Permutation
import Mathlib.Data.Nat.Bitwise
import RegisterMap.Proofs.Blocks.Coalescing

/-!
# Coalescing blocks again

What becomes of blocks that are observed themselves. Observations of one access make blocks that do
not overlap (`Follows`) and are what their own spans are made into (`Settled`). Coalescing them once
more joins those that touch and have one width, and nothing else: `coalesce_coalesce`.
-/

namespace RegisterMap

namespace AddressBlock

/-- The block as an observation of its bytes. -/
def observation (access : Access) (isolation : Nat) (b : AddressBlock) : Observation :=
  ⟨b.offset, b.size, b.width / 8, access, isolation⟩

/-- The block begins where the other ends, and is accessed with the same width. -/
def Continues (b a : AddressBlock) : Prop := b.offset = a.fin ∧ b.width = a.width

instance (b a : AddressBlock) : Decidable (b.Continues a) := inferInstanceAs (Decidable (_ ∧ _))

/-- The block with those right behind it that continue it, and the others joined likewise. -/
def joinFrom (a : AddressBlock) : List AddressBlock → List AddressBlock
  | [] => [a]
  | b :: bs =>
    if b.Continues a then joinFrom { a with size := a.size + b.size } bs else a :: joinFrom b bs

/-- The blocks, each with those right behind it that continue it. -/
def join : List AddressBlock → List AddressBlock
  | [] => []
  | b :: bs => joinFrom b bs

theorem exists_joinFrom_eq_cons (a : AddressBlock) (bs : List AddressBlock) :
    ∃ c cs, joinFrom a bs = c :: cs ∧ c.offset = a.offset ∧ c.width = a.width := by
  fun_induction joinFrom a bs with
  | case1 a => exact ⟨a, [], rfl, rfl, rfl⟩
  | case2 a b bs h ih => exact ih
  | case3 a b bs h ih => exact ⟨a, _, rfl, rfl, rfl⟩

/-- No joined block continues the one before it. -/
theorem isChain_joinFrom (a : AddressBlock) (bs : List AddressBlock) :
    (joinFrom a bs).IsChain fun a b => ¬b.Continues a := by
  fun_induction joinFrom a bs with
  | case1 a => exact .singleton a
  | case2 a b bs h ih => exact ih
  | case3 a b bs h ih =>
    obtain ⟨c, cs, hjoin, hoffset, hwidth⟩ := exists_joinFrom_eq_cons b bs
    rw [hjoin] at ih ⊢
    refine List.isChain_cons_cons.2 ⟨?_, ih⟩
    rwa [Continues, hoffset, hwidth]

theorem isChain_join (bs : List AddressBlock) :
    (join bs).IsChain fun a b => ¬b.Continues a := by
  cases bs with
  | nil => exact .nil
  | cons b bs => exact isChain_joinFrom b bs

theorem joinFrom_of_isChain {a : AddressBlock} {bs : List AddressBlock}
    (h : (a :: bs).IsChain fun a b => ¬b.Continues a) : joinFrom a bs = a :: bs := by
  induction bs generalizing a with
  | nil => rfl
  | cons b bs ih =>
    obtain ⟨hab, hbs⟩ := List.isChain_cons_cons.1 h
    rw [joinFrom, if_neg hab, ih hbs]

/-- Joining changes nothing exactly when no block continues the one before it. -/
theorem join_eq_self_iff {bs : List AddressBlock} :
    join bs = bs ↔ bs.IsChain fun a b => ¬b.Continues a := by
  constructor
  · intro h
    rw [← h]
    exact isChain_join bs
  · intro h
    cases bs with
    | nil => rfl
    | cons b bs => exact joinFrom_of_isChain h

theorem join_join (bs : List AddressBlock) : join (join bs) = join bs :=
  join_eq_self_iff.2 (isChain_join bs)

/-- The block begins no sooner than the other ends, and later if touching spans were joined
whatever their widths are. -/
def Follows (preferred : Nat) (a b : AddressBlock) : Prop :=
  a.fin ≤ b.offset ∧ (preferred ≠ 0 → a.fin ≠ b.offset)

/-- The span of the block when it is observed. -/
def span (access : Access) (isolation : Nat) (b : AddressBlock) : Span :=
  .ofObservation (b.observation access isolation)

/-- The block has bytes, starts and ends with a cell, and is what becomes of its own span. -/
structure Settled (preferred m : Nat) (b : AddressBlock) : Prop where
  pos : 0 < b.size
  dvd_offset : max 1 m ∣ b.offset
  dvd_size : max 1 m ∣ b.size
  toBlock_span : ∀ access isolation, (b.span access isolation).toBlock preferred = b

end AddressBlock

namespace Span

open AddressBlock

variable {s t : Span} {m : Nat}

theorem align_of_isAligned (h : s.IsAligned (max 1 m)) : s.align m = s := by
  by_cases hm : 1 < m
  · rw [Nat.max_eq_right (Nat.le_of_lt hm)] at h
    obtain ⟨i, hi⟩ := h.1
    obtain ⟨j, hj⟩ := (Nat.dvd_add_right h.1).2 h.2
    have hstart : (s.align m).start = s.start := by
      rw [start_align hm, hi, Nat.mul_div_cancel_left _ (by omega), Nat.mul_comm]
    have hfin : (s.align m).fin = s.fin := by
      have hround : (m * j + m - 1) / m = j := by
        rw [Nat.add_sub_assoc (by omega), Nat.mul_add_div (by omega), Nat.div_eq_of_lt (by omega),
          Nat.add_zero]
      rw [fin_align hm, fin, hj, hround, Nat.mul_comm]
    have hsize : (s.align m).size = s.size := by
      unfold fin at hfin
      omega
    unfold align at *
    rw [if_pos hm] at *
    cases s
    simp_all
  · exact align_of_le_one (by omega)

/-- What divides start and size is not narrowed. -/
theorem alignment_eq_self {k : Nat} (hstart : s.start % (1 <<< k) = 0)
    (hsize : s.size % (1 <<< k) = 0) : s.alignment k = k := by
  cases k with
  | zero => rfl
  | succ k => rw [alignment, if_pos (by simp [hstart, hsize])]

theorem toBlock_of_preferred {preferred : Nat} (h : preferred ≠ 0) (s : Span) :
    s.toBlock preferred =
      { offset := s.start, size := s.size, width := 8 <<< s.alignment preferred.log2 } := by
  unfold toBlock
  simp only [if_pos h]

/-- The exponent depends on start and size only. -/
theorem alignment_congr (hstart : t.start = s.start) (hsize : t.size = s.size) (k : Nat) :
    t.alignment k = s.alignment k := by
  induction k with
  | zero => rfl
  | succ k ih => rw [alignment, alignment, hstart, hsize, ih]

end Span

namespace AddressBlock

variable {preferred m : Nat} {a b : AddressBlock}

/-- Without a preferred width, a block becomes itself if its width is up to 32 bytes. -/
theorem toBlock_span_of_width {k : Nat} (hk : k ≤ 5) (hwidth : b.width = 8 <<< k)
    (hoffset : b.offset % (1 <<< k) = 0) (hsize : b.size % (1 <<< k) = 0)
    (husage : b.usage = "registers") (access : Access) (isolation : Nat) :
    (b.span access isolation).toBlock 0 = b := by
  have hpow : 2 ^ k ≤ 2 ^ 5 := Nat.pow_le_pow_right (by decide) hk
  have hbytes : (b.span access isolation).widths.log2 = 2 ^ k := by
    show (1 <<< min (b.width / 8) 63).log2 = 2 ^ k
    rw [hwidth, Nat.shiftLeft_eq 8, Nat.mul_div_cancel_left _ (by decide),
      Nat.min_eq_left (by omega), Nat.one_shiftLeft, Nat.log2_two_pow]
  have halignment : (b.span access isolation).alignment k = k :=
    Span.alignment_eq_self hoffset hsize
  unfold Span.toBlock
  simp only [ne_eq, not_true_eq_false, if_false]
  rw [hbytes, Nat.log2_two_pow, halignment, ← hwidth, ← husage]
  rfl

theorem log2_log2_le {n : Nat} (h : n < 2 ^ 64) : n.log2.log2 ≤ 5 := by
  have hlog : n.log2 < 64 := by
    rcases Nat.eq_zero_or_pos n with rfl | hn
    · decide
    · exact (Nat.log2_lt (by omega)).2 h
  rcases Nat.eq_zero_or_pos n.log2 with h0 | hpos
  · rw [h0]
    decide
  · exact Nat.le_of_lt_succ ((Nat.log2_lt (by omega)).2 hlog)

/-- The widths seen are at most 63 bytes. -/
theorem span_widths_lt (access : Access) (isolation : Nat) (b : AddressBlock) :
    (b.span access isolation).widths < 2 ^ 64 := by
  show 1 <<< min (b.width / 8) 63 < 2 ^ 64
  rw [Nat.one_shiftLeft]
  exact Nat.pow_lt_pow_right (by decide) (by omega)

/-- A settled block has a width that divides its start and size, up to 32 bytes when no width is
preferred. -/
theorem Settled.exists_width (h : b.Settled 0 m) :
    ∃ k ≤ 5, b.width = 8 <<< k ∧ b.offset % (1 <<< k) = 0 ∧ b.size % (1 <<< k) = 0 ∧
      b.usage = "registers" := by
  let s := b.span .readWrite 0
  have hself : s.toBlock 0 = b := h.toBlock_span .readWrite 0
  have hlog : s.widths.log2.log2 ≤ 5 := log2_log2_le (b.span_widths_lt _ _)
  obtain ⟨hoffset, hsize⟩ := s.mod_alignment s.widths.log2.log2
  refine ⟨_, Nat.le_trans (s.alignment_le _) hlog, ?_, hoffset, hsize, ?_⟩
  · exact congrArg width hself.symm
  · exact congrArg usage hself.symm

/-- A settled block stays so with one that continues it. -/
theorem Settled.append (ha : a.Settled 0 m) (hb : b.Settled 0 m) (h : b.Continues a) :
    { a with size := a.size + b.size }.Settled 0 m where
  pos := Nat.add_pos_left ha.pos _
  dvd_offset := ha.dvd_offset
  dvd_size := Nat.dvd_add ha.dvd_size hb.dvd_size
  toBlock_span access isolation := by
    obtain ⟨k, hk, hwidth, hoffset, hsize, husage⟩ := ha.exists_width
    obtain ⟨l, -, hwidth', -, hsize', -⟩ := hb.exists_width
    have hkl : 1 <<< l = 1 <<< k := by
      have heq : 8 * 2 ^ l = 8 * 2 ^ k := by
        rw [← Nat.shiftLeft_eq, ← Nat.shiftLeft_eq, ← hwidth, ← hwidth', h.2]
      rw [Nat.one_shiftLeft, Nat.one_shiftLeft]
      omega
    rw [hkl] at hsize'
    have hsum : (a.size + b.size) % (1 <<< k) = 0 := Nat.mod_eq_zero_of_dvd
      (Nat.dvd_add (Nat.dvd_of_mod_eq_zero hsize) (Nat.dvd_of_mod_eq_zero hsize'))
    exact toBlock_span_of_width (b := { a with size := a.size + b.size }) hk hwidth hoffset hsum
      husage access isolation

/-- A block made of a span with bytes and with widths up to 63 bytes is settled. -/
theorem settled_toBlock (preferred : Nat) {t : Span} (hpos : 0 < t.size)
    (haligned : t.IsAligned (max 1 m)) (hwidths : t.widths < 2 ^ 64) :
    (t.toBlock preferred).Settled preferred m where
  pos := hpos
  dvd_offset := haligned.1
  dvd_size := haligned.2
  toBlock_span access isolation := by
    by_cases hp : preferred = 0
    · subst hp
      obtain ⟨hoffset, hsize⟩ := t.mod_alignment t.widths.log2.log2
      exact toBlock_span_of_width (Nat.le_trans (t.alignment_le _) (log2_log2_le hwidths)) rfl
        hoffset hsize rfl access isolation
    · -- the width seen does not matter
      have halignment := Span.alignment_congr (s := t)
        (t := (t.toBlock preferred).span access isolation) rfl rfl preferred.log2
      rw [Span.toBlock_of_preferred hp, halignment, Span.toBlock_of_preferred hp]
      rfl

/-- Settled blocks that follow each other come in strict order. -/
theorem Follows.order_eq_lt (ha : a.Settled preferred m) (h : a.Follows preferred b) :
    a.order b = .lt := by
  have hlt : a.offset < b.offset := by
    have := ha.pos
    have := h.1
    unfold fin at this
    omega
  simp [order, Nat.compare_eq_lt.2 hlt]

end AddressBlock

namespace Coalescing

open AddressBlock

variable {access : Access} {isolation : Nat}

/-! ## Observations of one access -/

/-- The span has the access and the isolation, and widths up to 63 bytes. -/
structure IsOf (access : Access) (isolation : Nat) (s : Span) : Prop where
  access_eq : s.access = access
  isolation_eq : s.isolation = isolation
  widths_lt : s.widths < 2 ^ 64

/-- What holds between two observations when all have the access and the isolation: the blocks are
settled and follow each other, and the current span follows them. -/
structure Uniform (access : Access) (isolation : Nat) (c : Coalescing) : Prop where
  pending_of : ∀ s ∈ c.pending, IsOf access isolation s
  current_of : ∀ t ∈ c.current, IsOf access isolation t
  current_pos : ∀ t ∈ c.current, 0 < t.size
  settled : ∀ b ∈ c.blocks, b.Settled c.preferred c.multiple
  follow : c.blocks.Pairwise (Follows c.preferred)
  current_follows : ∀ b ∈ c.blocks, ∃ t ∈ c.current,
    b.fin ≤ t.start ∧ (c.preferred ≠ 0 → b.fin ≠ t.start)

theorem isOf_ofObservation {o : Observation} (h : o.access = access ∧ o.isolation = isolation) :
    IsOf access isolation (.ofObservation o) where
  access_eq := h.1
  isolation_eq := h.2
  widths_lt := by
    show 1 <<< min o.width 63 < 2 ^ 64
    rw [Nat.one_shiftLeft]
    exact Nat.pow_lt_pow_right (by decide) (by omega)

theorem IsOf.take {s : Span} (hs : IsOf access isolation s) (o : Observation) :
    IsOf access isolation (s.take o) where
  access_eq := hs.access_eq
  isolation_eq := hs.isolation_eq
  widths_lt := by
    refine Nat.or_lt_two_pow hs.widths_lt ?_
    rw [Nat.one_shiftLeft]
    exact Nat.pow_lt_pow_right (by decide) (by omega)

theorem IsOf.align {s : Span} (hs : IsOf access isolation s) (m : Nat) :
    IsOf access isolation (s.align m) := by
  unfold Span.align
  split
  · exact ⟨hs.access_eq, hs.isolation_eq, hs.widths_lt⟩
  · exact hs

/-- Spans of one access are joined when the second begins in the first, or where it ends if a width
is preferred or both have seen the same width. -/
theorem joins_iff {c : Coalescing} {t s : Span} (ht : IsOf access isolation t)
    (hs : IsOf access isolation s) :
    c.joins t s = true ↔ s.start < t.fin ∨
      s.start = t.fin ∧ (c.preferred ≠ 0 ∨ s.widths &&& t.widths ≠ 0) := by
  simp [joins, ht.access_eq, hs.access_eq, ht.isolation_eq, hs.isolation_eq, Access.sharesBlock]

theorem complete_of_current {c : Coalescing} {t : Span} (hc : c.current = some t) :
    c.complete = { c with current := none, blocks := c.blocks ++ [t.toBlock c.preferred] } := by
  rw [Coalescing.complete, hc]

/-- Making a block of the current span: the blocks are settled and follow each other. -/
theorem Uniform.complete {c : Coalescing} {a : Nat} (h : c.Uniform access isolation)
    (hrun : c.Running a) :
    (∀ b ∈ c.complete.blocks, b.Settled c.preferred c.multiple) ∧
      c.complete.blocks.Pairwise (Follows c.preferred) := by
  unfold Coalescing.complete
  cases hc : c.current with
  | none => exact ⟨h.settled, h.follow⟩
  | some t =>
    have hsettled := settled_toBlock c.preferred (h.current_pos t hc)
      (hrun.current_aligned t hc) (h.current_of t hc).widths_lt
    refine ⟨List.forall_mem_append.2 ⟨h.settled, List.forall_mem_singleton.2 hsettled⟩, ?_⟩
    refine List.pairwise_append.2 ⟨h.follow, List.pairwise_singleton _ _, fun b hb d hd => ?_⟩
    cases List.mem_singleton.1 hd
    obtain ⟨u, hu, hfollows⟩ := h.current_follows b hb
    rw [hc] at hu
    cases hu
    exact hfollows

/-- Absorbing a span that does not begin before the current one. -/
theorem Uniform.grow {c : Coalescing} {a : Nat} (h : c.Uniform access isolation)
    (hrun : c.Running a) {s : Span} (hs : IsOf access isolation s) (hpos : 0 < s.size)
    (hstart : ∀ t ∈ c.current, t.start ≤ s.start) : (c.grow s).Uniform access isolation := by
  have haligned := hs.align c.multiple
  have hsize : 0 < (s.align c.multiple).size := by
    have := s.start_align_le c.multiple
    have := s.fin_le_fin_align c.multiple
    unfold Span.fin at *
    omega
  have hcomplete := h.complete hrun
  unfold Coalescing.grow
  cases hc : c.current with
  | none =>
    -- without a current span there are no blocks
    have hnone : c.blocks = [] := by
      refine List.eq_nil_iff_forall_not_mem.2 fun b hb => ?_
      obtain ⟨t, ht, -⟩ := h.current_follows b hb
      rw [hc] at ht
      cases ht
    refine { h with current_of := ?_, current_pos := ?_, current_follows := ?_ }
    · rintro u ⟨⟩
      exact haligned
    · rintro u ⟨⟩
      exact hsize
    · intro b hb
      rw [hnone] at hb
      cases hb
  | some t =>
    have ht := h.current_of t hc
    have hle := (hrun.current_aligned t hc).start_le_align (hstart t hc)
    simp only
    split
    · refine { h with current_of := ?_, current_pos := ?_, current_follows := ?_ }
      · rintro u ⟨⟩
        exact ⟨ht.access_eq, ht.isolation_eq, ht.widths_lt⟩
      · rintro u ⟨⟩
        have := h.current_pos t hc
        show 0 < max t.fin _ - t.start
        unfold Span.fin
        omega
      · intro b hb
        obtain ⟨u, hu, hfollows⟩ := h.current_follows b hb
        rw [hc] at hu
        cases hu
        exact ⟨_, rfl, hfollows⟩
    · rename_i hjoins
      rw [joins_iff ht haligned] at hjoins
      have hend : t.fin ≤ (s.align c.multiple).start ∧
          (c.preferred ≠ 0 → t.fin ≠ (s.align c.multiple).start) := by
        grind
      rw [complete_of_current hc] at hcomplete ⊢
      obtain ⟨hsettled, hfollow⟩ := hcomplete
      refine { h with
        current_of := ?_, current_pos := ?_, settled := hsettled, follow := hfollow,
        current_follows := ?_ }
      · rintro u ⟨⟩
        exact haligned
      · rintro u ⟨⟩
        exact hsize
      · intro b hb
        refine ⟨_, rfl, ?_⟩
        rcases List.mem_append.1 hb with hb | hb
        · obtain ⟨u, hu, hfin, -⟩ := h.current_follows b hb
          rw [hc] at hu
          cases hu
          have hpos := h.current_pos t hc
          have hbetween : b.fin < (s.align c.multiple).start := by
            unfold Span.fin at hend
            omega
          exact ⟨Nat.le_of_lt hbetween, fun _ => Nat.ne_of_lt hbetween⟩
        · cases List.mem_singleton.1 hb
          exact hend

theorem Uniform.settle {c : Coalescing} {a : Nat} (h : c.Uniform access isolation)
    (hrun : c.Running a) : c.settle.Uniform access isolation := by
  unfold Coalescing.settle
  cases hp : c.pending with
  | none => exact h
  | some s =>
    exact Uniform.grow (c := { c with pending := none }) { h with pending_of := nofun } hrun.idle
      (h.pending_of s hp) (hrun.pending_pos s hp) fun t ht => hrun.current_le_pending t ht s hp

theorem Uniform.step {c : Coalescing} {a : Nat} (h : c.Uniform access isolation)
    (hrun : c.Running a) {o : Observation} (ho : o.access = access ∧ o.isolation = isolation) :
    (c.step o).Uniform access isolation := by
  unfold Coalescing.step
  split
  · exact h
  split
  · rename_i s hs
    refine { h with pending_of := ?_ }
    rintro u ⟨⟩
    exact (h.pending_of s (Option.filter_eq_some_iff.1 hs).1).take o
  · refine { h.settle hrun with pending_of := ?_ }
    rintro u ⟨⟩
    exact isOf_ofObservation ho

theorem uniform_foldl {os : List Observation} (hos : os.Pairwise fun o p => o.address ≤ p.address)
    (hsame : ∀ o ∈ os, o.access = access ∧ o.isolation = isolation) {c : Coalescing} {a : Nat}
    (hrun : c.Running a) (h : c.Uniform access isolation) (ha : ∀ o ∈ os, a ≤ o.address) :
    (os.foldl Coalescing.step c).Uniform access isolation :=
  foldl_step_induction hos (fun _ _ o ho hrun h => h.step hrun (hsame o ho)) hrun ha h

/-! ## Observations that do not overlap -/

/-- An observation behind the pending span starts a span of its own. -/
theorem step_eq_of_behind {c : Coalescing} {o : Observation} (hsize : 0 < o.size)
    (h : ∀ s ∈ c.pending, s.fin ≤ o.address) :
    c.step o = { c.settle with pending := some (.ofObservation o) } := by
  have hnone : c.pending.filter (·.takes o) = none := by
    refine Option.filter_eq_none_iff.2 fun s hs => ?_
    have := h s hs
    simp only [Span.takes, Bool.and_eq_true, decide_eq_true_eq]
    omega
  exact step_of_not_takes (Nat.ne_of_gt hsize) hnone

/-- Observations that do not overlap are absorbed one by one. -/
theorem settle_foldl {os : List Observation} (hsize : ∀ o ∈ os, 0 < o.size)
    (hos : os.Pairwise fun o p => o.address + o.size ≤ p.address) :
    ∀ {c : Coalescing}, (∀ s ∈ c.pending, ∀ o ∈ os, s.fin ≤ o.address) →
      (os.foldl Coalescing.step c).settle =
        os.foldl (fun c o => c.grow (.ofObservation o)) c.settle := by
  induction hos with
  | nil => exact fun _ => rfl
  | @cons o os ho _ ih =>
    intro c hpending
    obtain ⟨hpos, hsize⟩ := List.forall_mem_cons.1 hsize
    have hstep := step_eq_of_behind hpos fun s hs => hpending s hs o List.mem_cons_self
    have hsettle : (c.step o).settle = c.settle.grow (.ofObservation o) := by
      have hidle : { c.settle with pending := none } = c.settle := by rw [← pending_settle c]
      rw [hstep]
      exact congrArg (·.grow (.ofObservation o)) hidle
    rw [List.foldl_cons, List.foldl_cons, ← hsettle]
    refine ih hsize fun s hs p hp => ?_
    rw [hstep] at hs
    cases hs
    exact ho p hp

/-! ## Observing blocks -/

section Blocks

variable {preferred m : Nat} {a b : AddressBlock}

theorem and_shiftLeft_ne_zero_iff {i j : Nat} : 1 <<< i &&& 1 <<< j ≠ 0 ↔ i = j := by
  rw [Nat.one_shiftLeft, Nat.one_shiftLeft, Nat.and_two_pow, Nat.testBit_two_pow]
  have := Nat.two_pow_pos j
  by_cases h : i = j <;> simp [h]

theorem span_align (hb : b.Settled preferred m) :
    (b.span access isolation).align m = b.span access isolation :=
  Span.align_of_isAligned ⟨hb.dvd_offset, hb.dvd_size⟩

theorem isOf_span (b : AddressBlock) : IsOf access isolation (b.span access isolation) :=
  isOf_ofObservation ⟨rfl, rfl⟩

/-- The spans of settled blocks are joined when one block continues the other. -/
theorem joins_span_iff (access : Access) (isolation : Nat) {c : Coalescing}
    (ha : a.Settled c.preferred m) (hb : b.Settled c.preferred m) (h : a.Follows c.preferred b) :
    c.joins (a.span access isolation) (b.span access isolation) = true ↔ b.Continues a := by
  have hbehind : ¬b.offset < a.fin := Nat.not_lt.2 h.1
  rw [joins_iff (isOf_span a) (isOf_span b)]
  show b.offset < a.fin ∨ b.offset = a.fin ∧
    (c.preferred ≠ 0 ∨ 1 <<< min (b.width / 8) 63 &&& 1 <<< min (a.width / 8) 63 ≠ 0) ↔ _
  rw [or_iff_right hbehind, and_shiftLeft_ne_zero_iff]
  by_cases hp : c.preferred = 0
  · rw [hp] at ha hb
    obtain ⟨k, hk, hwidth, -⟩ := ha.exists_width
    obtain ⟨l, hl, hwidth', -⟩ := hb.exists_width
    have hk := Nat.pow_le_pow_right (show 0 < 2 by decide) hk
    have hl := Nat.pow_le_pow_right (show 0 < 2 by decide) hl
    rw [Nat.shiftLeft_eq] at hwidth hwidth'
    have hwidths : min (b.width / 8) 63 = min (a.width / 8) 63 ↔ b.width = a.width := by omega
    rw [or_iff_right (not_not.2 hp), hwidths]
    exact Iff.rfl
  · exact iff_of_false (fun hjoin => h.2 hp hjoin.1.symm) fun hcont => h.2 hp hcont.1.symm

/-- Absorbing the span of a settled block joins it to the current one or begins with it. -/
theorem grow_span {c : Coalescing} (hcurrent : c.current = some (a.span access isolation))
    (ha : a.Settled c.preferred c.multiple) (hb : b.Settled c.preferred c.multiple)
    (h : a.Follows c.preferred b) :
    c.grow (b.span access isolation) =
      if b.Continues a then
        { c with current := some (span access isolation { a with size := a.size + b.size }) }
      else { c with blocks := c.blocks ++ [a], current := some (b.span access isolation) } := by
  have hjoins := joins_span_iff access isolation ha hb h
  unfold Coalescing.grow
  simp only [hcurrent, span_align hb, hjoins]
  split
  · rename_i hcont
    have hsize : max a.fin b.fin - a.offset = a.size + b.size := by
      have := hcont.1
      unfold AddressBlock.fin at *
      omega
    have hreach : (a.span access isolation).reach (b.span access isolation).fin =
        span access isolation { a with size := a.size + b.size } :=
      congrArg (fun n => { a.span access isolation with size := n }) hsize
    rw [hreach]
  · rw [complete_of_current hcurrent, ha.toBlock_span]

/-- Absorbing the spans of settled blocks joins these. -/
theorem complete_foldl_grow {bs : List AddressBlock} {c : Coalescing}
    (hcurrent : c.current = some (a.span access isolation))
    (hsettled : ∀ b ∈ a :: bs, b.Settled c.preferred c.multiple)
    (hfollow : (a :: bs).Pairwise (Follows c.preferred)) :
    (bs.foldl (fun c b => c.grow (b.span access isolation)) c).complete.blocks =
      c.blocks ++ joinFrom a bs := by
  fun_induction joinFrom a bs generalizing c with
  | case1 a =>
    have ha := hsettled a List.mem_cons_self
    rw [List.foldl_nil, complete_of_current hcurrent, ha.toBlock_span]
  | case2 a b bs hcont ih =>
    obtain ⟨ha, hb, hbs⟩ : _ ∧ _ ∧ _ := by simpa only [List.forall_mem_cons] using hsettled
    obtain ⟨hab, hfollow⟩ := List.pairwise_cons.1 hfollow
    have hfollows := hab b List.mem_cons_self
    have hpreferred : c.preferred = 0 := by
      by_contra hp
      exact hfollows.2 hp hcont.1.symm
    -- the joined block ends where the second does
    have hfin : a.offset + (a.size + b.size) = b.fin := by
      rw [← Nat.add_assoc]
      exact congrArg (· + b.size) hcont.1.symm
    rw [List.foldl_cons, grow_span hcurrent ha hb hfollows, if_pos hcont]
    refine ih rfl (List.forall_mem_cons.2 ⟨?_, hbs⟩) (List.pairwise_cons.2 ⟨?_, hfollow.of_cons⟩)
    · rw [hpreferred] at ha hb ⊢
      exact ha.append hb hcont
    · intro d hd
      show a.offset + (a.size + b.size) ≤ d.offset ∧ (_ → a.offset + (a.size + b.size) ≠ d.offset)
      rw [hfin]
      exact List.rel_of_pairwise_cons hfollow hd
  | case3 a b bs hcont ih =>
    obtain ⟨ha, hb, hbs⟩ : _ ∧ _ ∧ _ := by simpa only [List.forall_mem_cons] using hsettled
    obtain ⟨hab, hfollow⟩ := List.pairwise_cons.1 hfollow
    rw [List.foldl_cons, grow_span hcurrent ha hb (hab b List.mem_cons_self), if_neg hcont]
    let c' := { c with blocks := c.blocks ++ [a], current := some (b.span access isolation) }
    have hrest := ih (c := c') rfl (List.forall_mem_cons.2 ⟨hb, hbs⟩) hfollow
    rw [hrest, List.append_assoc]
    rfl

end Blocks

/-! ## Results -/

/-- The preferred width and the multiple, which stay what they are. -/
def settings (c : Coalescing) : Nat × Nat := (c.preferred, c.multiple)

@[simp] theorem settings_complete (c : Coalescing) : c.complete.settings = c.settings := by
  unfold Coalescing.complete
  split <;> rfl

@[simp] theorem settings_grow (c : Coalescing) (s : Span) : (c.grow s).settings = c.settings := by
  have hcomplete := settings_complete c
  unfold Coalescing.grow
  cases c.current with
  | none => rfl
  | some t =>
    simp only
    split
    · rfl
    · exact hcomplete

@[simp] theorem settings_settle (c : Coalescing) : c.settle.settings = c.settings := by
  unfold Coalescing.settle
  split
  · rfl
  · exact settings_grow _ _

@[simp] theorem settings_step (c : Coalescing) (o : Observation) :
    (c.step o).settings = c.settings := by
  have hsettle := settings_settle c
  unfold Coalescing.step
  split
  · rfl
  split
  · rfl
  · exact hsettle

theorem settings_foldl (os : List Observation) (c : Coalescing) :
    (os.foldl Coalescing.step c).settings = c.settings := by
  induction os generalizing c with
  | nil => rfl
  | cons o os ih => rw [List.foldl_cons, ih, settings_step]

/-- The blocks of observations; both widths are in bits. -/
def coalesce (preferred forced : Nat) (os : List Observation) :
    Except Failure (List AddressBlock) := do
  let c ← start preferred forced
  let c ← c.addAll os
  c.finish

theorem dedup_eq_self {bs : List AddressBlock} (h : bs.Pairwise fun a b => a.order b = .lt) :
    dedup bs = bs := by
  induction h with
  | nil => rfl
  | @cons a bs ha _ ih =>
    cases bs with
    | nil => rfl
    | cons b bs =>
      have hne : a ≠ b := by
        rintro rfl
        have hlt : a.order a = .lt := ha a List.mem_cons_self
        have hrefl : a.order a = .eq := Std.ReflCmp.compare_self
        rw [hrefl] at hlt
        cases hlt
      rw [dedup, if_neg hne, ih]

/-- Blocks in strict order are in order, each of them once. -/
theorem sortedBlocks_eq_self {c : Coalescing}
    (h : c.blocks.Pairwise fun a b => a.order b = .lt) : c.sortedBlocks = c.blocks := by
  have hle : c.blocks.Pairwise fun a b => (a.order b).isLE = true :=
    h.imp fun h => by rw [h]; rfl
  rw [sortedBlocks, List.mergeSort_of_pairwise hle, dedup_eq_self h]

section Results

variable {preferred forced : Nat} {os : List Observation}

/-- The state behind the last observation. -/
def after (preferred forced : Nat) (os : List Observation) : Coalescing :=
  os.foldl Coalescing.step { preferred := preferred / 8, multiple := forced / 8 }

theorem settings_after (preferred forced : Nat) (os : List Observation) :
    (after preferred forced os).settings = (preferred / 8, forced / 8) :=
  settings_foldl os _

theorem uniform_start (preferred multiple : Nat) :
    Uniform access isolation { preferred, multiple } where
  pending_of := nofun
  current_of := nofun
  current_pos := nofun
  settled := nofun
  follow := .nil
  current_follows := nofun

theorem exists_running_after (preferred forced : Nat)
    (hos : os.Pairwise fun o p => o.address ≤ p.address) :
    ∃ a, (after preferred forced os).Running a :=
  (run_addAll hos (running_start _ _) fun _ _ => Nat.zero_le _).2.2.1

/-- With a known multiple, observations in order have the blocks of all their spans. -/
theorem coalesce_eq_sortedBlocks (preferred : Nat) (hforced : forced ∈ [0, 8, 16, 32])
    (hos : os.Pairwise fun o p => o.address ≤ p.address) :
    coalesce preferred forced os =
      .ok (after preferred forced os).settle.complete.sortedBlocks := by
  obtain ⟨hadd, -, ⟨a, hrun⟩, -⟩ :=
    run_addAll hos (running_start (preferred / 8) (forced / 8)) fun _ _ => Nat.zero_le _
  rw [coalesce, start_eq_ok _ _ hforced]
  exact bind_eq_ok.2 ⟨_, rfl, bind_eq_ok.2 ⟨_, hadd, finish_eq_ok hrun⟩⟩

/-- Observations of one access, in order, are coalesced to settled blocks that follow each other. -/
theorem coalesce_eq_ok (preferred : Nat) (hforced : forced ∈ [0, 8, 16, 32])
    (hos : os.Pairwise fun o p => o.address ≤ p.address)
    (hsame : ∀ o ∈ os, o.access = access ∧ o.isolation = isolation) :
    coalesce preferred forced os = .ok (after preferred forced os).settle.complete.blocks ∧
      (∀ b ∈ (after preferred forced os).settle.complete.blocks,
        b.Settled (preferred / 8) (forced / 8)) ∧
      (after preferred forced os).settle.complete.blocks.Pairwise (Follows (preferred / 8)) := by
  obtain ⟨a, hafter⟩ := exists_running_after preferred forced hos
  have huniform : (after preferred forced os).Uniform access isolation :=
    uniform_foldl hos hsame (running_start _ _) (uniform_start _ _) fun _ _ => Nat.zero_le _
  have hsettings := settings_after preferred forced os
  rw [← settings_settle] at hsettings
  have hpreferred : (after preferred forced os).settle.preferred = preferred / 8 :=
    congrArg Prod.fst hsettings
  have hmultiple : (after preferred forced os).settle.multiple = forced / 8 :=
    congrArg Prod.snd hsettings
  obtain ⟨hsettled, hfollow⟩ := (huniform.settle hafter).complete (running_settle hafter)
  rw [hpreferred, hmultiple] at hsettled
  rw [hpreferred] at hfollow
  refine ⟨?_, hsettled, hfollow⟩
  rw [coalesce_eq_sortedBlocks preferred hforced hos, sortedBlocks_eq_self
    (hfollow.imp_of_mem fun ha _ hab => Follows.order_eq_lt (hsettled _ ha) hab)]

/-- The spans of settled blocks that follow each other make the joined blocks. -/
theorem complete_foldl_start {bs : List AddressBlock}
    (hsettled : ∀ b ∈ bs, b.Settled preferred forced)
    (hfollow : bs.Pairwise (Follows preferred)) :
    (bs.foldl (fun (c : Coalescing) b => c.grow (b.span access isolation))
      { preferred, multiple := forced }).complete.blocks = join bs := by
  cases bs with
  | nil => rfl
  | cons b bs =>
    let c : Coalescing := { preferred, multiple := forced }
    let d : Coalescing := { c with current := some (b.span access isolation) }
    have hfirst : c.grow (b.span access isolation) = d := by
      show { c with current := some ((b.span access isolation).align forced) } = d
      rw [span_align (hsettled b List.mem_cons_self)]
    rw [List.foldl_cons, hfirst]
    exact complete_foldl_grow (c := d) rfl hsettled hfollow

/-- Settled blocks that follow each other are joined when they are observed. -/
theorem coalesce_blocks (hforced : forced ∈ [0, 8, 16, 32]) {bs : List AddressBlock}
    (hsettled : ∀ b ∈ bs, b.Settled (preferred / 8) (forced / 8))
    (hfollow : bs.Pairwise (Follows (preferred / 8))) (access : Access) (isolation : Nat) :
    coalesce preferred forced (bs.map (·.observation access isolation)) = .ok (join bs) ∧
      (∀ b ∈ join bs, b.Settled (preferred / 8) (forced / 8)) ∧
      (join bs).Pairwise (Follows (preferred / 8)) := by
  have hapart : (bs.map (·.observation access isolation)).Pairwise
      fun o p => o.address + o.size ≤ p.address :=
    List.pairwise_map.2 (hfollow.imp And.left)
  have hpos : ∀ o ∈ bs.map (·.observation access isolation), 0 < o.size :=
    List.forall_mem_map.2 fun b hb => (hsettled b hb).pos
  have hsame : ∀ o ∈ bs.map (·.observation access isolation),
      o.access = access ∧ o.isolation = isolation :=
    List.forall_mem_map.2 fun _ _ => ⟨rfl, rfl⟩
  have hjoin : (after preferred forced
      (bs.map (·.observation access isolation))).settle.complete.blocks = join bs := by
    have hidle : ∀ s ∈ (none : Option Span), ∀ o ∈ bs.map (·.observation access isolation),
        s.fin ≤ o.address := by
      rintro s ⟨⟩
    rw [after, settle_foldl hpos hapart hidle, List.foldl_map]
    exact complete_foldl_start hsettled hfollow
  rw [← hjoin]
  exact coalesce_eq_ok preferred hforced
    (hapart.imp fun h => Nat.le_trans (Nat.le_add_right _ _) h) hsame

end Results

/-- **Coalescing again.** With a known multiple, observations of one access in the order of their
addresses have blocks. When these are observed in turn, those that touch and have one width are
joined and the others stay, so that the blocks come back unchanged exactly when no block continues
the one before it, as with a preferred width. Joined blocks always come back unchanged. -/
theorem coalesce_coalesce (preferred : Nat) {forced : Nat} (hforced : forced ∈ [0, 8, 16, 32])
    {os : List Observation} (hos : os.Pairwise fun o p => o.address ≤ p.address)
    {access : Access} {isolation : Nat}
    (hsame : ∀ o ∈ os, o.access = access ∧ o.isolation = isolation) :
    ∃ bs, coalesce preferred forced os = .ok bs ∧
      coalesce preferred forced (bs.map (·.observation access isolation)) = .ok (join bs) ∧
      (join bs = bs ↔ bs.IsChain fun a b => ¬b.Continues a) ∧
      (8 ≤ preferred → join bs = bs) ∧
      coalesce preferred forced ((join bs).map (·.observation access isolation)) =
        .ok (join bs) := by
  obtain ⟨hfirst, hsettled, hfollow⟩ := coalesce_eq_ok preferred hforced hos hsame
  obtain ⟨hagain, hsettled', hfollow'⟩ :=
    coalesce_blocks hforced hsettled hfollow access isolation
  refine ⟨_, hfirst, hagain, join_eq_self_iff, fun hp => ?_, ?_⟩
  · -- with a preferred width, blocks do not touch
    refine join_eq_self_iff.2 (hfollow.imp fun h hcont => h.2 ?_ hcont.1.symm).isChain
    exact Nat.ne_of_gt (Nat.div_pos hp (by decide))
  · rw [(coalesce_blocks hforced hsettled' hfollow' access isolation).1, join_join]

section Example

/-- A word at 2 and a half-word behind it. -/
private def misaligned : List Observation :=
  [⟨2, 4, 4, .readWrite, 0⟩, ⟨6, 2, 2, .readWrite, 0⟩]

/-- Two words, a byte behind them, and two more words. -/
private def words : List Observation :=
  [⟨0, 4, 4, .readWrite, 0⟩, ⟨4, 4, 4, .readWrite, 0⟩, ⟨8, 1, 1, .readWrite, 0⟩,
    ⟨16, 8, 4, .readWrite, 0⟩]

theorem coalesce_coalesce_words :
    coalesce 0 0 words =
      .ok [⟨0, 8, 32, "registers"⟩, ⟨8, 1, 8, "registers"⟩, ⟨16, 8, 32, "registers"⟩] ∧
    coalesce 0 0 [⟨0, 8, 4, .readWrite, 0⟩, ⟨8, 1, 1, .readWrite, 0⟩, ⟨16, 8, 4, .readWrite, 0⟩] =
      .ok [⟨0, 8, 32, "registers"⟩, ⟨8, 1, 8, "registers"⟩, ⟨16, 8, 32, "registers"⟩] := by
  have hblocks : coalesce 0 0 words =
      .ok [⟨0, 8, 32, "registers"⟩, ⟨8, 1, 8, "registers"⟩, ⟨16, 8, 32, "registers"⟩] := by
    cbv
  have hforced : 0 ∈ [0, 8, 16, 32] := by decide
  have hos : words.Pairwise fun o p => o.address ≤ p.address := by decide
  have hsame : ∀ o ∈ words, o.access = .readWrite ∧ o.isolation = 0 := by decide
  obtain ⟨bs, hbs, hagain, hchain, -⟩ := coalesce_coalesce 0 hforced hos hsame
  cases hblocks.symm.trans hbs
  rw [hchain.2 (by decide)] at hagain
  exact ⟨hblocks, hagain⟩

/-- The blocks of the misaligned word and of the half-word behind it become one. -/
theorem coalesce_coalesce_misaligned :
    coalesce 0 0 misaligned = .ok [⟨2, 4, 16, "registers"⟩, ⟨6, 2, 16, "registers"⟩] ∧
    coalesce 0 0 ([⟨2, 4, 16, "registers"⟩, ⟨6, 2, 16, "registers"⟩].map
      (AddressBlock.observation .readWrite 0)) = .ok [⟨2, 6, 16, "registers"⟩] := by
  exact ⟨by cbv, by cbv⟩

end Example

end Coalescing

end RegisterMap
