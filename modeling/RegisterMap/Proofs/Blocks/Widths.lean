import Mathlib.Order.Bounds.Defs
import RegisterMap.Proofs.Blocks.FixedPoint

/-!
# The widths of blocks

Coalescing groups observations twice. Those that lie on each other are a run (`Coalescing.runs`),
and runs whose spans are joined are a stretch (`Coalescing.stretches`). The blocks are those of the
stretches (`Coalescing.coalesce_eq_stretches`). Only the first run of a stretch brings widths: where
no width is preferred, the width of a block is the widest access of that run, made narrower until it
divides start and size (`Coalescing.coalesce_widths`).
-/

namespace RegisterMap

/-! ## Runs and stretches -/

/-- Observations that become one span: the first, and each that lies on the span of those before
it. -/
structure Run where
  first : Observation
  rest : List Observation := []
  deriving DecidableEq

namespace Run

def observations (r : Run) : List Observation := r.first :: r.rest

/-- The span of the observations. -/
def span (r : Run) : Span := r.rest.foldl Span.take (.ofObservation r.first)

/-- The run with one more observation. -/
def push (r : Run) (o : Observation) : Run := { r with rest := r.rest ++ [o] }

@[simp] theorem observations_push (r : Run) (o : Observation) :
    (r.push o).observations = r.observations ++ [o] := rfl

@[simp] theorem span_push (r : Run) (o : Observation) : (r.push o).span = r.span.take o := by
  simp [span, push]

end Run

/-- Runs that become one block: the first, and each whose span is joined to that of those before
it. -/
structure Stretch where
  first : Run
  rest : List Run := []
  deriving DecidableEq

namespace Stretch

def runs (s : Stretch) : List Run := s.first :: s.rest

def observations (s : Stretch) : List Observation := s.runs.flatMap Run.observations

/-- The stretch with one more run. -/
def push (s : Stretch) (r : Run) : Stretch := { s with rest := s.rest ++ [r] }

/-- The span of the runs in cells of `m` bytes. -/
def span (m : Nat) (s : Stretch) : Span :=
  s.rest.foldl (fun t r => t.reach (r.span.align m).fin) (s.first.span.align m)

/-- The block of the stretch. -/
def block (preferred m : Nat) (s : Stretch) : AddressBlock := (s.span m).toBlock preferred

@[simp] theorem runs_push (s : Stretch) (r : Run) : (s.push r).runs = s.runs ++ [r] := rfl

@[simp] theorem span_push (m : Nat) (s : Stretch) (r : Run) :
    (s.push r).span m = (s.span m).reach (r.span.align m).fin := by
  simp [span, push]

end Stretch

namespace Coalescing

/-- The runs of observations, after one that is not finished. -/
def runsFrom (r : Run) : List Observation → List Run
  | [] => [r]
  | o :: os =>
    if o.size = 0 then runsFrom r os
    else if r.span.takes o then runsFrom (r.push o) os
    else r :: runsFrom ⟨o, []⟩ os

/-- The observations that have bytes, cut where one does not lie on the span of those before. -/
def runs : List Observation → List Run
  | [] => []
  | o :: os => if o.size = 0 then runs os else runsFrom ⟨o, []⟩ os

/-- The stretches of runs, after one that is not finished. -/
def stretchesFrom (c : Coalescing) (s : Stretch) : List Run → List Stretch
  | [] => [s]
  | r :: rs =>
    if c.joins (s.span c.multiple) (r.span.align c.multiple) then c.stretchesFrom (s.push r) rs
    else s :: c.stretchesFrom ⟨r, []⟩ rs

/-- The runs, cut where the span of one is not joined to that of those before. -/
def stretches (c : Coalescing) : List Run → List Stretch
  | [] => []
  | r :: rs => c.stretchesFrom ⟨r, []⟩ rs

/-! ### Nothing is lost -/

theorem flatMap_runsFrom (r : Run) (os : List Observation) :
    (runsFrom r os).flatMap Run.observations = r.observations ++ os.filter (0 < ·.size) := by
  fun_induction runsFrom r os with
  | case1 r => simp
  | case2 r o os hsize ih => simpa [hsize] using ih
  | case3 r o os hsize htakes ih => simpa [Nat.pos_of_ne_zero hsize] using ih
  | case4 r o os hsize htakes ih =>
    simp [ih, Run.observations, Nat.pos_of_ne_zero hsize]

/-- Each observation that has bytes is in one run, in its place. -/
theorem flatMap_runs (os : List Observation) :
    (runs os).flatMap Run.observations = os.filter (0 < ·.size) := by
  fun_induction runs os with
  | case1 => rfl
  | case2 o os hsize ih => simpa [hsize] using ih
  | case3 o os hsize =>
    rw [flatMap_runsFrom]
    simp [Run.observations, Nat.pos_of_ne_zero hsize]

theorem flatMap_stretchesFrom (c : Coalescing) (s : Stretch) (rs : List Run) :
    (c.stretchesFrom s rs).flatMap Stretch.runs = s.runs ++ rs := by
  fun_induction stretchesFrom c s rs with
  | case1 s => simp
  | case2 s r rs hjoins ih => simpa using ih
  | case3 s r rs hjoins ih => simp [ih, Stretch.runs]

/-- Each run is in one stretch, in its place. -/
theorem flatMap_stretches (c : Coalescing) (rs : List Run) :
    (c.stretches rs).flatMap Stretch.runs = rs := by
  cases rs with
  | nil => rfl
  | cons r rs => exact flatMap_stretchesFrom c ⟨r, []⟩ rs

/-- The stretches hold the observations that have bytes, in order. -/
theorem flatMap_observations (c : Coalescing) (os : List Observation) :
    (c.stretches (runs os)).flatMap Stretch.observations = os.filter (0 < ·.size) := by
  have hruns : (c.stretches (runs os)).flatMap Stretch.observations =
      ((c.stretches (runs os)).flatMap Stretch.runs).flatMap Run.observations :=
    List.flatMap_assoc.symm
  rw [hruns, flatMap_stretches, flatMap_runs]

/-! ### From observations to runs -/

/-- Absorbs the span of a run. -/
def growRun (c : Coalescing) (r : Run) : Coalescing := c.grow r.span

theorem settle_foldl_runsFrom {r : Run} {os : List Observation} {c : Coalescing}
    (h : c.pending = some r.span) :
    (os.foldl Coalescing.step c).settle =
      (runsFrom r os).foldl growRun { c with pending := none } := by
  fun_induction runsFrom r os generalizing c with
  | case1 r =>
    show c.settle = Coalescing.grow { c with pending := none } r.span
    unfold Coalescing.settle
    rw [h]
  | case2 r o os hsize ih =>
    rw [List.foldl_cons, step_of_empty hsize, ih h]
  | case3 r o os hsize htakes ih =>
    have hpending : c.pending.filter (·.takes o) = some r.span := by
      rw [h, Option.filter_some, if_pos htakes]
    rw [List.foldl_cons, step_of_takes hsize hpending, ← Run.span_push]
    exact ih rfl
  | case4 r o os hsize htakes ih =>
    have hstep : c.step o = { c.settle with pending := some (Run.span ⟨o, []⟩) } :=
      step_of_not_takes hsize (by rw [h, Option.filter_some, if_neg htakes])
    have hsettle : c.settle = growRun { c with pending := none } r := by
      unfold Coalescing.settle
      rw [h]
      rfl
    have hidle : { c.settle with pending := none } = c.settle := by rw [← pending_settle c]
    rw [List.foldl_cons, hstep, ih rfl, List.foldl_cons, ← hsettle, hidle]

/-- Taking observations absorbs the spans of their runs one by one. -/
theorem settle_foldl_runs {os : List Observation} {c : Coalescing} (h : c.pending = none) :
    (os.foldl Coalescing.step c).settle = (runs os).foldl growRun c := by
  fun_induction runs os generalizing c with
  | case1 =>
    show c.settle = c
    unfold Coalescing.settle
    rw [h]
  | case2 o os hsize ih =>
    rw [List.foldl_cons, step_of_empty hsize, ih h]
  | case3 o os hsize =>
    have hsettle : c.settle = c := by
      unfold Coalescing.settle
      rw [h]
    have hstep : c.step o = { c with pending := some (Run.span ⟨o, []⟩) } := by
      rw [step_of_not_takes hsize (by rw [h, Option.filter_none]), hsettle]
      rfl
    have hidle : { c with pending := none } = c := by rw [← h]
    rw [List.foldl_cons, hstep, settle_foldl_runsFrom (r := ⟨o, []⟩) rfl]
    exact congrArg (fun d => (runsFrom ⟨o, []⟩ os).foldl growRun d) hidle

/-! ### From runs to blocks -/

/-- Which spans are joined depends on the settings only. -/
theorem joins_congr {c d : Coalescing} (h : d.settings = c.settings) (t s : Span) :
    d.joins t s = c.joins t s := by
  have hpreferred : d.preferred = c.preferred := congrArg Prod.fst h
  simp only [joins, hpreferred]

theorem blocks_foldl_stretchesFrom {c d : Coalescing} {s : Stretch} {rs : List Run}
    (hsettings : d.settings = c.settings) (h : d.current = some (s.span c.multiple)) :
    (rs.foldl growRun d).complete.blocks =
      d.blocks ++ (c.stretchesFrom s rs).map (Stretch.block c.preferred c.multiple) := by
  have hpreferred : d.preferred = c.preferred := congrArg Prod.fst hsettings
  have hmultiple : d.multiple = c.multiple := congrArg Prod.snd hsettings
  fun_induction stretchesFrom c s rs generalizing d with
  | case1 s =>
    rw [List.foldl_nil, complete_of_current h, hpreferred]
    rfl
  | case2 s r rs hjoins ih =>
    have hgrow : growRun d r = { d with current := some ((s.push r).span c.multiple) } := by
      unfold growRun Coalescing.grow
      simp only [h, hmultiple, joins_congr hsettings, hjoins, if_true, Stretch.span_push]
    rw [List.foldl_cons, hgrow]
    exact ih hsettings rfl hpreferred hmultiple
  | case3 s r rs hjoins ih =>
    let d' : Coalescing := { c with
      pending := d.pending
      current := some (Stretch.span c.multiple ⟨r, []⟩)
      blocks := d.blocks ++ [s.block c.preferred c.multiple]
      lastIsolation := d.lastIsolation }
    have hgrow : growRun d r = d' := by
      unfold growRun Coalescing.grow
      simp only [h, hmultiple, joins_congr hsettings, hjoins, Bool.false_eq_true, if_false,
        complete_of_current h, hpreferred]
      rfl
    have hrest := ih (d := d') rfl rfl rfl rfl
    rw [List.foldl_cons, hgrow, hrest, List.append_assoc]
    rfl

/-- The blocks are those of the stretches. -/
theorem blocks_foldl_stretches {c : Coalescing} (rs : List Run) (hcurrent : c.current = none)
    (hblocks : c.blocks = []) :
    (rs.foldl growRun c).complete.blocks =
      (c.stretches rs).map (Stretch.block c.preferred c.multiple) := by
  cases rs with
  | nil => simp [Coalescing.complete, hcurrent, hblocks, stretches]
  | cons r rs =>
    let d : Coalescing := { c with current := some (Stretch.span c.multiple ⟨r, []⟩) }
    have hgrow : growRun c r = d := by
      unfold growRun Coalescing.grow
      simp only [hcurrent]
      rfl
    have hrest := @blocks_foldl_stretchesFrom c d ⟨r, []⟩ rs rfl rfl
    rw [List.foldl_cons, hgrow, hrest]
    exact congrArg (· ++ _) hblocks

/-- With a known multiple, observations in order have the blocks of their stretches. -/
theorem coalesce_eq_stretches (preferred : Nat) {forced : Nat} (hforced : forced ∈ [0, 8, 16, 32])
    {os : List Observation} (hos : os.Pairwise fun o p => o.address ≤ p.address) :
    let c : Coalescing := { preferred := preferred / 8, multiple := forced / 8 }
    ∃ bs, coalesce preferred forced os = .ok bs ∧
      ∀ b, b ∈ bs ↔ ∃ s ∈ c.stretches (runs os), s.block (preferred / 8) (forced / 8) = b := by
  intro c
  refine ⟨_, coalesce_eq_sortedBlocks preferred hforced hos, fun b => ?_⟩
  have hafter : (after preferred forced os).settle = (runs os).foldl growRun c :=
    settle_foldl_runs rfl
  rw [mem_sortedBlocks, hafter, blocks_foldl_stretches (c := c) (runs os) rfl rfl, List.mem_map]

end Coalescing

/-! ## Widths -/

/-- The widest access of the observations, in bytes. -/
def widest : List Observation → Nat
  | [] => 0
  | o :: os => max o.width (widest os)

theorem widest_append (os ps : List Observation) :
    widest (os ++ ps) = max (widest os) (widest ps) := by
  induction os with
  | nil => simp [widest]
  | cons o os ih => rw [List.cons_append, widest, widest, ih, Nat.max_assoc]

theorem widest_le {os : List Observation} {n : Nat} : widest os ≤ n ↔ ∀ o ∈ os, o.width ≤ n := by
  induction os with
  | nil => simp [widest]
  | cons o os ih => rw [widest, Nat.max_le, ih, List.forall_mem_cons]

/-- The access width of the block is the largest power of two, in bytes, that is not larger than `n`
and divides start and size. -/
def AddressBlock.IsFitted (n : Nat) (b : AddressBlock) : Prop :=
  ∃ w, b.width = 8 * w ∧
    IsGreatest {v | (∃ k, v = 2 ^ k) ∧ v ≤ n ∧ v ∣ b.offset ∧ v ∣ b.size} w

/-- A block that is fitted to a width is fitted to a larger one as well if no power of two between
them divides start and size. -/
theorem AddressBlock.IsFitted.iff_of_le {m n : Nat} {b : AddressBlock} (h : b.IsFitted m)
    (hmn : m ≤ n) :
    b.IsFitted n ↔ ∀ k, 2 ^ k ≤ n → 2 ^ k ∣ b.offset → 2 ^ k ∣ b.size → 2 ^ k ≤ m := by
  obtain ⟨w, hw, ⟨⟨hpower, hwm, hdvd⟩, hgreatest⟩⟩ := h
  constructor
  · rintro ⟨v, hv, -, hgreatest'⟩ k hk hoffset hsize
    have hsame : v = w := by omega
    exact (hgreatest' ⟨⟨k, rfl⟩, hk, hoffset, hsize⟩).trans (hsame.trans_le hwm)
  · intro hbetween
    refine ⟨w, hw, ⟨hpower, hwm.trans hmn, hdvd⟩, ?_⟩
    rintro _ ⟨⟨k, rfl⟩, hk, hoffset, hsize⟩
    exact hgreatest ⟨⟨k, rfl⟩, hbetween k hk hoffset hsize, hoffset, hsize⟩

theorem log2_or {a b : Nat} (ha : a ≠ 0) (hb : b ≠ 0) : (a ||| b).log2 = max a.log2 b.log2 := by
  have hor : a ||| b ≠ 0 := Nat.ne_of_gt (Nat.lt_of_lt_of_le (Nat.pos_of_ne_zero ha) Nat.left_le_or)
  refine (Nat.log2_eq_iff hor).2 ⟨?_, ?_⟩
  · rcases Nat.le_total a.log2 b.log2 with h | h
    · rw [Nat.max_eq_right h]
      exact (Nat.log2_self_le hb).trans Nat.right_le_or
    · rw [Nat.max_eq_left h]
      exact (Nat.log2_self_le ha).trans Nat.left_le_or
  · refine Nat.or_lt_two_pow ?_ ?_
    · exact (Nat.log2_lt ha).1 (Nat.lt_succ_of_le (Nat.le_max_left _ _))
    · exact (Nat.log2_lt hb).1 (Nat.lt_succ_of_le (Nat.le_max_right _ _))

namespace Span

variable {s t : Span}

/-- Of the exponents up to a bound whose powers divide start and size, the largest is taken. -/
theorem isGreatest_alignment (s : Span) (n : Nat) :
    IsGreatest {k | k ≤ n ∧ 2 ^ k ∣ s.start ∧ 2 ^ k ∣ s.size} (s.alignment n) := by
  constructor
  · obtain ⟨hstart, hsize⟩ := s.mod_alignment n
    rw [Nat.one_shiftLeft] at hstart hsize
    exact ⟨s.alignment_le n, Nat.dvd_of_mod_eq_zero hstart, Nat.dvd_of_mod_eq_zero hsize⟩
  · induction n with
    | zero => exact fun k hk => hk.1
    | succ n ih =>
      rintro k ⟨hk, hstart, hsize⟩
      unfold alignment
      split
      · exact hk
      · rename_i hnot
        refine ih ⟨Nat.le_of_lt_succ (Nat.lt_of_le_of_ne hk ?_), hstart, hsize⟩
        rintro rfl
        exact hnot (by
          simp [Nat.one_shiftLeft, Nat.mod_eq_zero_of_dvd hstart, Nat.mod_eq_zero_of_dvd hsize])

/-- Without a preferred width, the block of a span is fitted to the widest access seen. -/
theorem isFitted_toBlock (h : t.widths.log2 ≠ 0) : (t.toBlock 0).IsFitted t.widths.log2 := by
  obtain ⟨⟨hle, hstart, hsize⟩, hgreatest⟩ := t.isGreatest_alignment t.widths.log2.log2
  refine ⟨2 ^ t.alignment t.widths.log2.log2, Nat.shiftLeft_eq _ _,
    ⟨⟨_, rfl⟩, (Nat.le_log2 h).1 hle, hstart, hsize⟩, ?_⟩
  rintro _ ⟨⟨k, rfl⟩, hk, hoffset, hdvd⟩
  exact Nat.pow_le_pow_right (by decide) (hgreatest ⟨(Nat.le_log2 h).2 hk, hoffset, hdvd⟩)

@[simp] theorem widths_align (m : Nat) (s : Span) : (s.align m).widths = s.widths := by
  unfold align
  split <;> rfl

theorem widths_foldl_reach (rs : List Run) (m : Nat) (t : Span) :
    (rs.foldl (fun t r => t.reach (r.span.align m).fin) t).widths = t.widths := by
  induction rs generalizing t with
  | nil => rfl
  | cons r rs ih => exact ih _

theorem log2_widths_foldl_take {os : List Observation} (hos : ∀ o ∈ os, o.width ≤ 63)
    (hs : s.widths ≠ 0) :
    (os.foldl take s).widths.log2 = max s.widths.log2 (widest os) := by
  induction os generalizing s with
  | nil => exact (Nat.max_zero _).symm
  | cons o os ih =>
    obtain ⟨ho, hos⟩ := List.forall_mem_cons.1 hos
    have hone : 1 <<< min o.width 63 = 2 ^ o.width := by rw [Nat.min_eq_left ho, Nat.one_shiftLeft]
    have hpow : (2 ^ o.width : Nat) ≠ 0 := Nat.ne_of_gt (Nat.two_pow_pos _)
    have hwidths : (s.take o).widths = s.widths ||| 2 ^ o.width := congrArg (s.widths ||| ·) hone
    have hne : (s.take o).widths ≠ 0 := by
      rw [hwidths]
      exact Nat.ne_of_gt (Nat.lt_of_lt_of_le (Nat.pos_of_ne_zero hs) Nat.left_le_or)
    rw [List.foldl_cons, ih hos hne, hwidths, log2_or hs hpow, Nat.log2_two_pow, widest,
      Nat.max_assoc]

end Span

/-- The widths seen in a run tell its widest access. -/
theorem Run.log2_widths_span {r : Run} (h : ∀ o ∈ r.observations, o.width ≤ 63) :
    r.span.widths.log2 = widest r.observations := by
  obtain ⟨hfirst, hrest⟩ := List.forall_mem_cons.1 h
  have hone : (Span.ofObservation r.first).widths = 2 ^ r.first.width := by
    show 1 <<< min r.first.width 63 = _
    rw [Nat.min_eq_left hfirst, Nat.one_shiftLeft]
  rw [span, Span.log2_widths_foldl_take hrest (hone ▸ Nat.ne_of_gt (Nat.two_pow_pos _)), hone,
    Nat.log2_two_pow, observations, widest]

/-- The block of a stretch is fitted to the widest access of the first run. -/
theorem Stretch.isFitted_block {s : Stretch} (m : Nat)
    (h : ∀ o ∈ s.first.observations, 1 ≤ o.width ∧ o.width ≤ 63) :
    (s.block 0 m).IsFitted (widest s.first.observations) := by
  have hwidths : (s.span m).widths.log2 = widest s.first.observations := by
    rw [span, Span.widths_foldl_reach, Span.widths_align]
    exact Run.log2_widths_span fun o ho => (h o ho).2
  have hpos : widest s.first.observations ≠ 0 := by
    have hle : s.first.first.width ≤ widest s.first.observations :=
      widest_le.1 (Nat.le_refl _) _ List.mem_cons_self
    have := (h _ List.mem_cons_self).1
    omega
  rw [← hwidths] at hpos ⊢
  exact Span.isFitted_toBlock hpos

namespace Coalescing

/-- **Widths.** With a known multiple and no preferred width, observations in the order of their
addresses, accessed 1 to 63 bytes at a time, have the blocks of their stretches, which hold each
observation that has bytes once. A block is fitted to the widest access of the first run of its
stretch. It is fitted to the widest access of the whole stretch as well exactly when no larger power
of two up to that divides its start and size. -/
theorem coalesce_widths {forced : Nat} (hforced : forced ∈ [0, 8, 16, 32])
    {os : List Observation} (hos : os.Pairwise fun o p => o.address ≤ p.address)
    (hwidths : ∀ o ∈ os, 1 ≤ o.width ∧ o.width ≤ 63) :
    let ss := stretches { preferred := 0, multiple := forced / 8 } (runs os)
    (∃ bs, coalesce 0 forced os = .ok bs ∧
        ∀ b, b ∈ bs ↔ ∃ s ∈ ss, s.block 0 (forced / 8) = b) ∧
      ss.flatMap Stretch.observations = os.filter (0 < ·.size) ∧
      ∀ s ∈ ss, let b := s.block 0 (forced / 8)
        b.IsFitted (widest s.first.observations) ∧
        (b.IsFitted (widest s.observations) ↔ ∀ k, 2 ^ k ≤ widest s.observations →
          2 ^ k ∣ b.offset → 2 ^ k ∣ b.size → 2 ^ k ≤ widest s.first.observations) := by
  intro ss
  have hflat : ss.flatMap Stretch.observations = os.filter (0 < ·.size) :=
    flatMap_observations _ os
  refine ⟨coalesce_eq_stretches 0 hforced hos, hflat, fun s hs => ?_⟩
  have hobserved : ∀ o ∈ s.first.observations, o ∈ os := by
    intro o ho
    have hmem : o ∈ ss.flatMap Stretch.observations :=
      List.mem_flatMap.2 ⟨s, hs, List.mem_append_left _ ho⟩
    rw [hflat] at hmem
    exact (List.mem_filter.1 hmem).1
  have hfitted := s.isFitted_block (forced / 8) fun o ho => hwidths o (hobserved o ho)
  have hle : widest s.first.observations ≤ widest s.observations := by
    show _ ≤ widest (s.first.observations ++ s.rest.flatMap Run.observations)
    rw [widest_append]
    exact Nat.le_max_left _ _
  exact ⟨hfitted, hfitted.iff_of_le hle⟩

section Example

/-- A word with its first half, and a double word that begins with the word behind them. -/
private def banks : Stretch :=
  { first := ⟨⟨0, 4, 4, .readWrite, 0⟩, [⟨0, 2, 2, .readOnly, 0⟩]⟩
    rest := [⟨⟨4, 4, 4, .readWrite, 0⟩, [⟨4, 8, 8, .readWrite, 0⟩]⟩] }

theorem coalesce_widths_banks :
    stretches { preferred := 0, multiple := 0 } (runs banks.observations) = [banks] ∧
      coalesce 0 0 banks.observations = .ok [⟨0, 12, 32, "registers"⟩] ∧
      (banks.block 0 0).IsFitted 4 ∧ (banks.block 0 0).IsFitted 8 := by
  have hforced : 0 ∈ [0, 8, 16, 32] := by decide
  have hos : banks.observations.Pairwise fun o p => o.address ≤ p.address := by decide
  have hwidths : ∀ o ∈ banks.observations, 1 ≤ o.width ∧ o.width ≤ 63 := by decide
  have hstretches : stretches { preferred := 0, multiple := 0 } (runs banks.observations) =
      [banks] := by decide
  obtain ⟨-, -, hfitted⟩ := coalesce_widths hforced hos hwidths
  obtain ⟨hfirst, hwhole⟩ := hfitted banks (hstretches ▸ List.mem_singleton_self _)
  refine ⟨hstretches, by cbv, hfirst, hwhole.2 fun k hk _ hsize => ?_⟩
  -- eight bytes do not divide the size
  have hk : k ≤ 3 := (Nat.pow_le_pow_iff_right (by decide)).1 hk
  have hne : k ≠ 3 := by
    rintro rfl
    exact absurd hsize (by decide)
  exact Nat.pow_le_pow_right (n := 2) (by decide) (show k ≤ 2 by omega)

/-- A double word that is accessed by words, and one behind it that is also accessed as a whole. -/
private def widened : List Observation :=
  [⟨0, 8, 4, .readWrite, 0⟩, ⟨8, 8, 4, .readWrite, 0⟩, ⟨8, 8, 8, .readWrite, 0⟩]

/-- The one block of the observations has the width of words, though the widest access divides its
start and size. -/
theorem not_isFitted_widened :
    (stretches { preferred := 0, multiple := 0 } (runs widened)).map Stretch.observations =
        [widened] ∧
      coalesce 0 0 widened = .ok [⟨0, 16, 32, "registers"⟩] ∧ widest widened = 8 ∧
      ¬(AddressBlock.mk 0 16 32 "registers").IsFitted (widest widened) := by
  refine ⟨by decide, by cbv, by decide, ?_⟩
  rintro ⟨w, hw, -, hgreatest⟩
  have height : 8 ≤ w := hgreatest ⟨⟨3, rfl⟩, by decide, by decide, by decide⟩
  have hwidth : 32 = 8 * w := hw
  omega

end Example

end Coalescing

end RegisterMap
