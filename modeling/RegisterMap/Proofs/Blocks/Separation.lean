import RegisterMap.Proofs.Blocks.FixedPoint

/-!
# Blocks apart

Of what blocks are made, and when they are apart. Every byte of a block lies in a cell that an
observation of the block's own kind touches (`Coalescing.MadeOf`): one of its isolation, whose
access may share the block. So blocks reach into each other only where observations of different
kinds touch one cell: `coalesce_apart`.
-/

namespace RegisterMap

namespace Access

/-- Access types share a block when repeated reads are the same part of both. -/
theorem sharesBlock_iff {a b : Access} :
    a.sharesBlock b = true ↔ meet? a readOnly = meet? b readOnly := by
  cases a <;> cases b <;> decide

end Access

/-! ## Kinds -/

/-- What observations have in common that may share a block. -/
def Observation.kind (o : Observation) : Nat × Option Access :=
  (o.isolation, Access.meet? o.access .readOnly)

/-- The kind of the observations that may lie on the span. -/
def Span.kind (s : Span) : Nat × Option Access := (s.isolation, Access.meet? s.access .readOnly)

theorem Observation.kind_eq_iff {o p : Observation} :
    o.kind = p.kind ↔ o.isolation = p.isolation ∧ o.access.sharesBlock p.access = true := by
  rw [kind, kind, Prod.mk.injEq, Access.sharesBlock_iff]

/-- The observation has a byte in the cell of `m` bytes in which the byte lies. -/
def Observation.Touches (m : Nat) (o : Observation) (x : Nat) : Prop :=
  ∃ y, o.Has y ∧ SameCell m x y

namespace Span

variable {m : Nat} {os : List Observation} {s t : Span} {o : Observation}

/-- Every byte of the span lies in a cell that an observation of its kind touches. -/
def IsMadeOf (m : Nat) (os : List Observation) (s : Span) : Prop :=
  ∀ x, s.Has x → ∃ o ∈ os, o.kind = s.kind ∧ o.Touches m x

@[simp] theorem kind_align (m : Nat) (s : Span) : (s.align m).kind = s.kind := by
  unfold align
  split <;> rfl

@[simp] theorem kind_take (s : Span) (o : Observation) : (s.take o).kind = s.kind := rfl

theorem kind_eq_of_takes (h : s.takes o = true) : o.kind = s.kind := by
  simp only [takes, Bool.and_eq_true, beq_iff_eq, Access.sharesBlock_iff] at h
  rw [Observation.kind, kind, h.1.1.1, h.1.1.2]

theorem isMadeOf_ofObservation (ho : o ∈ os) : (ofObservation o).IsMadeOf m os :=
  fun x hx => ⟨o, ho, rfl, x, hx, rfl⟩

theorem IsMadeOf.take (h : s.IsMadeOf m os) (ho : o ∈ os) (htakes : s.takes o = true) :
    (s.take o).IsMadeOf m os := by
  intro x hx
  rcases (has_take htakes x).1 hx with hx | hx
  · exact h x hx
  · exact ⟨o, ho, (kind_eq_of_takes htakes).trans (kind_take s o).symm, x, hx, rfl⟩

theorem IsMadeOf.align (h : s.IsMadeOf (max 1 m) os) (hs : 0 < s.size) :
    (s.align m).IsMadeOf (max 1 m) os := by
  intro x hx
  obtain ⟨y, hy, hxy⟩ := (has_align hs x).1 hx
  obtain ⟨o, ho, hkind, z, hz, hyz⟩ := h y hy
  exact ⟨o, ho, hkind.trans (kind_align m s).symm, z, hz, hxy.trans hyz⟩

/-- A span grows by another of its kind that begins on it or where it ends. -/
theorem IsMadeOf.reach (ht : t.IsMadeOf m os) (hs : s.IsMadeOf m os) (hkind : t.kind = s.kind)
    (hstart : t.start ≤ s.start) (hfin : s.start ≤ t.fin) :
    (t.reach s.fin).IsMadeOf m os := by
  intro x hx
  have hle : t.start ≤ s.fin := Nat.le_trans hstart (Nat.le_add_right _ _)
  rcases (has_reach hle x).1 hx with hx | hx
  · exact ht x hx
  · obtain ⟨o, ho, hokind, htouches⟩ := hs x ⟨Nat.le_trans hfin hx.1, hx.2⟩
    exact ⟨o, ho, hokind.trans hkind.symm, htouches⟩

/-- Spans with a common byte are of one kind if no cell is touched by two kinds. -/
theorem IsMadeOf.kind_eq {x : Nat}
    (hos : ∀ o ∈ os, ∀ p ∈ os, ∀ x, o.Touches m x → p.Touches m x → o.kind = p.kind)
    (hs : s.IsMadeOf m os) (ht : t.IsMadeOf m os) (hsx : s.Has x) (htx : t.Has x) :
    t.kind = s.kind := by
  obtain ⟨o, ho, hokind, hox⟩ := hs x hsx
  obtain ⟨p, hp, hpkind, hpx⟩ := ht x htx
  rw [← hokind, ← hpkind]
  exact hos p hp o ho x hpx hox

theorem size_align_pos (m : Nat) (hs : 0 < s.size) : 0 < (s.align m).size := by
  have := s.start_align_le m
  have := s.fin_le_fin_align m
  unfold fin at *
  omega

end Span

namespace Coalescing

variable {c : Coalescing} {os : List Observation} {a : Nat} {s t : Span} {o : Observation}

/-- Spans are joined when they are of one kind and the second begins in the first, or where it ends
if a width is preferred or both have seen the same width. -/
theorem joins_iff_kind {t s : Span} :
    c.joins t s = true ↔ t.kind = s.kind ∧ (s.start < t.fin ∨
      s.start = t.fin ∧ (c.preferred ≠ 0 ∨ s.widths &&& t.widths ≠ 0)) := by
  simp [joins, Span.kind, Access.sharesBlock_iff]

/-! ## What spans and blocks are made of -/

/-- The spans and what the blocks were made from have bytes of the observations, each of one kind
only. -/
structure MadeOf (os : List Observation) (c : Coalescing) : Prop where
  pending : ∀ s ∈ c.pending, s.IsMadeOf c.cell os
  current : ∀ t ∈ c.current, t.IsMadeOf c.cell os
  blocks : ∀ b ∈ c.blocks, ∃ t : Span, t.IsMadeOf c.cell os ∧ t.toBlock c.preferred = b

theorem madeOf_start (preferred multiple : Nat) (os : List Observation) :
    MadeOf os { preferred, multiple } where
  pending := nofun
  current := nofun
  blocks := nofun

theorem MadeOf.complete (h : c.MadeOf os) :
    ∀ b ∈ c.complete.blocks, ∃ t : Span, t.IsMadeOf c.cell os ∧ t.toBlock c.preferred = b := by
  cases hc : c.current with
  | none =>
    rw [Coalescing.complete, hc]
    exact h.blocks
  | some t =>
    rw [complete_of_current hc]
    exact List.forall_mem_append.2
      ⟨h.blocks, List.forall_mem_singleton.2 ⟨t, h.current t hc, rfl⟩⟩

theorem MadeOf.grow (h : c.MadeOf os) (hrun : c.Running a) (hs : s.IsMadeOf c.cell os)
    (hpos : 0 < s.size) (hstart : ∀ t ∈ c.current, t.start ≤ s.start) :
    (c.grow s).MadeOf os := by
  have hcomplete := h.complete
  have haligned : (s.align c.multiple).IsMadeOf c.cell os := hs.align hpos
  unfold Coalescing.grow
  cases hc : c.current with
  | none =>
    refine { h with current := ?_ }
    rintro u ⟨⟩
    exact haligned
  | some t =>
    simp only
    split
    · rename_i hjoins
      refine { h with current := ?_ }
      rintro u ⟨⟩
      exact (h.current t hc).reach haligned (joins_iff_kind.1 hjoins).1
        ((hrun.current_aligned t hc).start_le_align (hstart t hc)) (le_fin_of_joins hjoins)
    · rw [complete_of_current hc] at hcomplete ⊢
      refine { h with current := ?_, blocks := hcomplete }
      rintro u ⟨⟩
      exact haligned

theorem MadeOf.settle (h : c.MadeOf os) (hrun : c.Running a) : c.settle.MadeOf os := by
  unfold Coalescing.settle
  cases hp : c.pending with
  | none => exact h
  | some s =>
    exact MadeOf.grow (c := { c with pending := none }) { h with pending := nofun } hrun.idle
      (h.pending s hp) (hrun.pending_pos s hp) fun t ht => hrun.current_le_pending t ht s hp

theorem MadeOf.step (h : c.MadeOf os) (hrun : c.Running a) (ho : o ∈ os) :
    (c.step o).MadeOf os := by
  unfold Coalescing.step
  split
  · exact h
  split
  · rename_i s hs
    obtain ⟨hs, htakes⟩ := Option.filter_eq_some_iff.1 hs
    refine { h with pending := ?_ }
    rintro u ⟨⟩
    exact (h.pending s hs).take ho htakes
  · refine { h.settle hrun with pending := ?_ }
    rintro u ⟨⟩
    exact Span.isMadeOf_ofObservation ho

/-! ## Blocks that do not overlap -/

/-- The blocks have bytes and come one behind the other, and the current span behind them. -/
structure Apart (c : Coalescing) : Prop where
  current_pos : ∀ t ∈ c.current, 0 < t.size
  blocks_pos : ∀ b ∈ c.blocks, 0 < b.size
  apart : c.blocks.Pairwise fun a b => a.fin ≤ b.offset
  behind : ∀ b ∈ c.blocks, ∃ t ∈ c.current, b.fin ≤ t.start

theorem apart_start (preferred multiple : Nat) : Apart { preferred, multiple } where
  current_pos := nofun
  blocks_pos := nofun
  apart := .nil
  behind := nofun

theorem Apart.complete (h : c.Apart) : (∀ b ∈ c.complete.blocks, 0 < b.size) ∧
    c.complete.blocks.Pairwise fun a b => a.fin ≤ b.offset := by
  cases hc : c.current with
  | none =>
    rw [Coalescing.complete, hc]
    exact ⟨h.blocks_pos, h.apart⟩
  | some t =>
    rw [complete_of_current hc]
    refine ⟨List.forall_mem_append.2
      ⟨h.blocks_pos, List.forall_mem_singleton.2 (h.current_pos t hc)⟩,
      List.pairwise_append.2 ⟨h.apart, List.pairwise_singleton _ _, fun b hb d hd => ?_⟩⟩
    cases List.mem_singleton.1 hd
    obtain ⟨u, hu, hfin⟩ := h.behind b hb
    cases hc.symm.trans hu
    exact hfin

/-- Absorbing a span that is joined to the current one if it reaches into that. -/
theorem Apart.grow (h : c.Apart) (hpos : 0 < s.size)
    (hclear : ∀ t ∈ c.current, t.start ≤ (s.align c.multiple).start ∧
      ((s.align c.multiple).start < t.fin → c.joins t (s.align c.multiple) = true)) :
    (c.grow s).Apart := by
  have hsize := Span.size_align_pos c.multiple hpos
  obtain ⟨hcompletePos, hcompleteApart⟩ := h.complete
  unfold Coalescing.grow
  cases hc : c.current with
  | none =>
    -- without a current span there are no blocks
    refine { h with current_pos := ?_, behind := fun b hb => ?_ }
    · rintro u ⟨⟩
      exact hsize
    · obtain ⟨t, ht, -⟩ := h.behind b hb
      cases hc.symm.trans ht
  | some t =>
    have ht := h.current_pos t hc
    obtain ⟨hle, hjoin⟩ := hclear t hc
    have hbehind : ∀ b ∈ c.blocks, b.fin ≤ t.start := by
      intro b hb
      obtain ⟨u, hu, hfin⟩ := h.behind b hb
      cases hc.symm.trans hu
      exact hfin
    simp only
    split
    · refine { h with current_pos := ?_, behind := fun b hb => ⟨_, rfl, hbehind b hb⟩ }
      rintro u ⟨⟩
      show 0 < max t.fin _ - t.start
      unfold Span.fin
      omega
    · rename_i hjoins
      have hfin : t.fin ≤ (s.align c.multiple).start :=
        Nat.le_of_not_lt fun hlt => hjoins (hjoin hlt)
      rw [complete_of_current hc] at hcompletePos hcompleteApart ⊢
      refine ⟨?_, hcompletePos, hcompleteApart, fun b hb => ⟨_, rfl, ?_⟩⟩
      · rintro u ⟨⟩
        exact hsize
      · rcases List.mem_append.1 hb with hb | hb
        · exact Nat.le_trans (hbehind b hb) hle
        · cases List.mem_singleton.1 hb
          exact hfin

section Run

variable (hos : ∀ o ∈ os, ∀ p ∈ os, ∀ x, o.Touches c.cell x → p.Touches c.cell x →
  o.kind = p.kind)

include hos

theorem Apart.settle (h : c.Apart) (hmade : c.MadeOf os) (hrun : c.Running a) :
    c.settle.Apart := by
  unfold Coalescing.settle
  cases hp : c.pending with
  | none => exact h
  | some s =>
    have hpos := hrun.pending_pos s hp
    refine Apart.grow (c := { c with pending := none }) { h with } hpos fun t ht => ?_
    have hle := (hrun.current_aligned t ht).start_le_align (hrun.current_le_pending t ht s hp)
    refine ⟨hle, fun hlt => joins_iff_kind.2 ⟨?_, .inl hlt⟩⟩
    -- the first byte of the span behind lies in both
    have haligned : (s.align c.multiple).IsMadeOf c.cell os := (hmade.pending s hp).align hpos
    exact haligned.kind_eq hos (hmade.current t ht)
      ⟨Nat.le_refl _, Nat.lt_add_of_pos_right (Span.size_align_pos _ hpos)⟩ ⟨hle, hlt⟩

theorem Apart.step (h : c.Apart) (hmade : c.MadeOf os) (hrun : c.Running a) (o : Observation) :
    (c.step o).Apart := by
  unfold Coalescing.step
  split
  · exact h
  split
  · exact { h with }
  · exact { h.settle hos hmade hrun with }

end Run

section Results

variable {preferred forced : Nat}

@[simp] theorem cell_after (preferred forced : Nat) (os : List Observation) :
    (after preferred forced os).cell = max 1 (forced / 8) :=
  congrArg (fun settings => max 1 settings.2) (settings_after preferred forced os)

theorem madeOf_after (preferred forced : Nat) (hos : os.Pairwise fun o p => o.address ≤ p.address) :
    (after preferred forced os).MadeOf os :=
  foldl_step_induction hos (fun _ _ _ ho hrun hmade => hmade.step hrun ho) (running_start _ _)
    (fun _ _ => Nat.zero_le _) (madeOf_start _ _ os)

/-- Each block has bytes only where there are observations of one kind. -/
theorem exists_kind_of_mem_coalesce (hforced : forced ∈ [0, 8, 16, 32])
    (hos : os.Pairwise fun o p => o.address ≤ p.address) {bs : List AddressBlock}
    (h : coalesce preferred forced os = .ok bs) {b : AddressBlock} (hb : b ∈ bs) :
    ∃ kind, ∀ x, b.Has x → ∃ o ∈ os, o.kind = kind ∧ o.Touches (max 1 (forced / 8)) x := by
  rw [coalesce_eq_sortedBlocks preferred hforced hos] at h
  cases h
  obtain ⟨a, hrun⟩ := exists_running_after preferred forced hos
  obtain ⟨t, ht, rfl⟩ :=
    ((madeOf_after preferred forced hos).settle hrun).complete b (mem_sortedBlocks.1 hb)
  rw [cell_settle, cell_after] at ht
  exact ⟨t.kind, fun x hx => ht x ((Span.has_toBlock _ t x).1 hx)⟩

/-- Where no cell is touched by two kinds, the blocks do not overlap. -/
theorem apart_after (preferred forced : Nat) (hos : os.Pairwise fun o p => o.address ≤ p.address)
    (hkinds : ∀ o ∈ os, ∀ p ∈ os, ∀ x, o.Touches (max 1 (forced / 8)) x →
      p.Touches (max 1 (forced / 8)) x → o.kind = p.kind) :
    (after preferred forced os).Apart := by
  have hstep : ∀ (c : Coalescing) a, ∀ o ∈ os, c.Running a →
      c.Apart ∧ c.MadeOf os ∧ c.cell = max 1 (forced / 8) →
      (c.step o).Apart ∧ (c.step o).MadeOf os ∧ (c.step o).cell = max 1 (forced / 8) := by
    rintro c a o ho hrun ⟨hapart, hmade, hcell⟩
    exact ⟨hapart.step (hcell ▸ hkinds) hmade hrun o, hmade.step hrun ho,
      (cell_step c o).trans hcell⟩
  exact (foldl_step_induction hos hstep (running_start _ _) (fun _ _ => Nat.zero_le _)
    ⟨apart_start _ _, madeOf_start _ _ os, rfl⟩).1

end Results

/-- **Blocks apart.** With a known multiple, observations in the order of their addresses have
blocks. When no cell is touched by two of them with different tokens, or with access types that may
not share a block, each block ends before or where the next one begins. -/
theorem coalesce_apart (preferred : Nat) {forced : Nat} (hforced : forced ∈ [0, 8, 16, 32])
    {os : List Observation} (hos : os.Pairwise fun o p => o.address ≤ p.address)
    (hkinds : ∀ o ∈ os, ∀ p ∈ os, ∀ x y, o.Has x → p.Has y →
      SameCell (max 1 (forced / 8)) x y →
      o.isolation = p.isolation ∧ o.access.sharesBlock p.access = true) :
    ∃ bs, coalesce preferred forced os = .ok bs ∧
      bs.Pairwise fun a b => a.fin ≤ b.offset := by
  have hclear : ∀ o ∈ os, ∀ p ∈ os, ∀ x, o.Touches (max 1 (forced / 8)) x →
      p.Touches (max 1 (forced / 8)) x → o.kind = p.kind := by
    rintro o ho p hp x ⟨y, hy, hxy⟩ ⟨z, hz, hxz⟩
    exact Observation.kind_eq_iff.2 (hkinds o ho p hp y z hy hz (hxy.symm.trans hxz))
  obtain ⟨a, hrun⟩ := exists_running_after preferred forced hos
  have hapart := (apart_after preferred forced hos hclear).settle
    (cell_after preferred forced os ▸ hclear) (madeOf_after preferred forced hos) hrun
  obtain ⟨hpos, hblocks⟩ := hapart.complete
  refine ⟨_, coalesce_eq_sortedBlocks preferred hforced hos, ?_⟩
  rw [sortedBlocks_eq_self]
  · exact hblocks
  · refine hblocks.imp_of_mem fun {b d} hb _ hbd => ?_
    have := hpos b hb
    have hlt : b.offset < d.offset := by
      unfold AddressBlock.fin at hbd
      omega
    simp [AddressBlock.order, Nat.compare_eq_lt.2 hlt]

section Example

/-- A word and a half-word that reaches out of it, both readable, around a cell that cannot be read
and in front of a byte with another token. -/
private def overlapping : List Observation :=
  [⟨0, 4, 4, .readWrite, 0⟩, ⟨3, 2, 2, .readOnly, 0⟩, ⟨8, 4, 4, .writeOnly, 0⟩,
    ⟨13, 1, 1, .readOnly, 1⟩]

theorem coalesce_apart_overlapping :
    coalesce 0 32 overlapping =
      .ok [⟨0, 8, 32, "registers"⟩, ⟨8, 4, 32, "registers"⟩, ⟨12, 4, 8, "registers"⟩] ∧
    [⟨0, 8, 32, "registers"⟩, ⟨8, 4, 32, "registers"⟩, ⟨12, 4, 8, "registers"⟩].Pairwise
      fun a b : AddressBlock => a.fin ≤ b.offset := by
  have hblocks : coalesce 0 32 overlapping =
      .ok [⟨0, 8, 32, "registers"⟩, ⟨8, 4, 32, "registers"⟩, ⟨12, 4, 8, "registers"⟩] := by
    cbv
  have hforced : 32 ∈ [0, 8, 16, 32] := by decide
  have hos : overlapping.Pairwise fun o p => o.address ≤ p.address := by decide
  have hkinds : ∀ o ∈ overlapping, ∀ p ∈ overlapping, ∀ x y, o.Has x → p.Has y →
      SameCell (max 1 (32 / 8)) x y →
      o.isolation = p.isolation ∧ o.access.sharesBlock p.access = true := by
    intro o ho p hp x y hx hy hxy
    simp only [overlapping, List.mem_cons, List.not_mem_nil, or_false] at ho hp
    have hcell : x / 4 = y / 4 := hxy
    rcases ho with rfl | rfl | rfl | rfl <;> rcases hp with rfl | rfl | rfl | rfl <;>
      simp only [Observation.Has] at hx hy <;>
      first | exact ⟨rfl, rfl⟩ | (exfalso; omega)
  obtain ⟨bs, hbs, hapart⟩ := coalesce_apart 0 hforced hos hkinds
  cases hblocks.symm.trans hbs
  exact ⟨hblocks, hapart⟩

end Example

end Coalescing

end RegisterMap
