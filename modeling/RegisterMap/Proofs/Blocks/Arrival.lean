import Mathlib.Data.List.Perm.Basic
import RegisterMap.Proofs.Blocks.Separation

/-!
# The order of arrival

Of the access of an observation, coalescing looks at its kind only. So one access can stand for all
of a kind (`Observation.canonical`), and steps are the same with it (`Coalescing.canonical_step`).
Then two observations of one kind and address may change places (`Coalescing.step_right_comm`), and
which of several observations at one address comes first does not change the blocks
(`Coalescing.coalesce_perm`).
-/

namespace RegisterMap

/-! ## Canonical access -/

/-- The access that stands for all that may share a block with this one. -/
def Access.canonical (a : Access) : Access := (meet? a readOnly).getD writeOnly

@[simp] theorem Access.meet?_canonical (a : Access) :
    meet? a.canonical readOnly = meet? a readOnly := by
  cases a <;> decide

@[simp] theorem Access.sharesBlock_canonical (a b : Access) :
    a.canonical.sharesBlock b.canonical = a.sharesBlock b := by
  rw [Bool.eq_iff_iff, sharesBlock_iff, sharesBlock_iff, meet?_canonical, meet?_canonical]

/-- The observation with the access that stands for its kind. -/
def Observation.canonical (o : Observation) : Observation := { o with access := o.access.canonical }

/-- The span with the access that stands for its kind. -/
def Span.canonical (s : Span) : Span := { s with access := s.access.canonical }

namespace Span

@[simp] theorem takes_canonical (s : Span) (o : Observation) :
    s.canonical.takes o.canonical = s.takes o := by
  simp only [takes, canonical, Observation.canonical, Access.sharesBlock_canonical]
  rfl

theorem canonical_align (m : Nat) (s : Span) : (s.align m).canonical = s.canonical.align m := by
  unfold align
  split <;> rfl

@[simp] theorem toBlock_canonical (preferred : Nat) (s : Span) :
    s.canonical.toBlock preferred = s.toBlock preferred := by
  have halignment (k : Nat) : s.canonical.alignment k = s.alignment k :=
    alignment_congr (s := s) (t := s.canonical) rfl rfl k
  simp only [toBlock, halignment]
  rfl

/-- The end of a span goes up to the further one of two addresses. -/
theorem reach_right_comm (s : Span) (a b : Nat) : (s.reach a).reach b = (s.reach b).reach a := by
  have hsize : ((s.reach a).reach b).size = ((s.reach b).reach a).size := by
    simp only [reach, fin]
    omega
  exact congrArg (fun size => { s with size }) hsize

theorem take_right_comm (s : Span) (o p : Observation) :
    (s.take o).take p = (s.take p).take o := by
  have hwidths : ((s.take o).take p).widths = ((s.take p).take o).widths := by
    simp only [take, Nat.lor_assoc, Nat.lor_comm (1 <<< min o.width 63)]
  have hreach := s.reach_right_comm (o.address + o.size) (p.address + p.size)
  calc (s.take o).take p
      = { (s.reach (o.address + o.size)).reach (p.address + p.size) with
          widths := ((s.take o).take p).widths } := rfl
    _ = (s.take p).take o := by
      rw [hreach, hwidths]
      rfl

end Span

/-- The observations are of one address, access and isolation. -/
structure Observation.Meets (o p : Observation) : Prop where
  address_eq : o.address = p.address
  access_eq : o.access = p.access
  isolation_eq : o.isolation = p.isolation

theorem Observation.meets_canonical {o p : Observation} (haddress : o.address = p.address)
    (hkind : o.kind = p.kind) : o.canonical.Meets p.canonical where
  address_eq := haddress
  access_eq := congrArg (·.getD .writeOnly) (congrArg Prod.snd hkind)
  isolation_eq := congrArg Prod.fst hkind

theorem Observation.Meets.symm {o p : Observation} (h : o.Meets p) : p.Meets o :=
  ⟨h.address_eq.symm, h.access_eq.symm, h.isolation_eq.symm⟩

namespace Span

variable {o p : Observation}

theorem takes_congr (h : o.Meets p) (s : Span) : s.takes o = s.takes p := by
  simp only [takes, h.address_eq, h.access_eq, h.isolation_eq]

/-- A span that has taken an observation takes another at its address as well. -/
theorem takes_take (h : o.Meets p) {s : Span} (ho : s.takes o = true) :
    (s.take o).takes p = true := by
  have hp : s.takes p = true := s.takes_congr h ▸ ho
  have hfin : s.fin ≤ (s.take o).fin := s.fin_le_fin_reach _
  simp only [takes, Bool.and_eq_true, decide_eq_true_eq] at hp ⊢
  exact ⟨hp.1, Nat.lt_of_lt_of_le hp.2 hfin⟩

theorem takes_ofObservation (h : o.Meets p) (ho : o.size ≠ 0) :
    (ofObservation o).takes p = true := by
  rw [← takes_congr h]
  have hfin : o.address < (ofObservation o).fin :=
    Nat.lt_add_of_pos_right (Nat.pos_of_ne_zero ho)
  simp only [takes, decide_eq_true hfin]
  simp [ofObservation, Access.sharesBlock]

theorem take_ofObservation_comm (h : o.Meets p) :
    (ofObservation o).take p = (ofObservation p).take o := by
  obtain ⟨haddress, haccess, hisolation⟩ := h
  simp only [take, reach, fin, ofObservation, haddress, haccess, hisolation,
    Nat.max_comm (p.address + o.size), Nat.lor_comm (1 <<< min o.width 63)]

end Span

namespace Coalescing

/-! ## Steps -/

/-- The coalescing of canonical spans. -/
def canonical (c : Coalescing) : Coalescing :=
  { c with pending := c.pending.map Span.canonical, current := c.current.map Span.canonical }

@[simp] theorem joins_canonical (c : Coalescing) (t s : Span) :
    c.canonical.joins t.canonical s.canonical = c.joins t s := by
  simp only [joins, canonical, Span.canonical, Access.sharesBlock_canonical]
  rfl

theorem canonical_complete (c : Coalescing) : c.complete.canonical = c.canonical.complete := by
  cases hc : c.current with
  | none => simp [complete, canonical, hc]
  | some t => simp [complete, canonical, hc]

theorem canonical_grow (c : Coalescing) (s : Span) :
    (c.grow s).canonical = c.canonical.grow s.canonical := by
  have halign : s.canonical.align c.canonical.multiple = (s.align c.multiple).canonical :=
    (Span.canonical_align c.multiple s).symm
  unfold grow
  rw [halign]
  cases hc : c.current with
  | none => simp [canonical, hc]
  | some t =>
    have hcurrent : c.canonical.current = some t.canonical := congrArg (Option.map _) hc
    simp only [hcurrent, joins_canonical]
    split
    · rfl
    · rw [← canonical_complete]
      rfl

theorem canonical_settle (c : Coalescing) : c.settle.canonical = c.canonical.settle := by
  unfold settle
  cases hp : c.pending with
  | none => simp [canonical, hp]
  | some s =>
    have hpending : c.canonical.pending = some s.canonical := congrArg (Option.map _) hp
    simp only [hpending]
    exact canonical_grow { c with pending := none } s

/-- A step takes the canonical observation as it takes the observation. -/
theorem canonical_step (c : Coalescing) (o : Observation) :
    (c.step o).canonical = c.canonical.step o.canonical := by
  have hpending : c.canonical.pending.filter (·.takes o.canonical) =
      (c.pending.filter (·.takes o)).map Span.canonical := by
    rw [canonical, Option.filter_map]
    simp only [Function.comp_def, Span.takes_canonical]
  by_cases hsize : o.size = 0
  · have hsize' : o.canonical.size = 0 := hsize
    rw [step_of_empty hsize, step_of_empty hsize']
  have hsize' : o.canonical.size ≠ 0 := hsize
  cases hf : c.pending.filter (·.takes o) with
  | some s =>
    rw [hf, Option.map_some] at hpending
    rw [step_of_takes hsize hf, step_of_takes hsize' hpending]
    rfl
  | none =>
    rw [hf, Option.map_none] at hpending
    rw [step_of_not_takes hsize hf, step_of_not_takes hsize' hpending, ← canonical_settle]
    rfl

theorem canonical_foldl (os : List Observation) (c : Coalescing) :
    (os.foldl step c).canonical = os.foldl (fun c o => c.step o.canonical) c.canonical := by
  induction os generalizing c with
  | nil => rfl
  | cons o os ih => rw [List.foldl_cons, ih, canonical_step, List.foldl_cons]

/-- The second of two observations that meet lies on the span that takes the first. -/
theorem step_step {o p : Observation} (h : o.Meets p) (ho : o.size ≠ 0) (hp : p.size ≠ 0)
    (c : Coalescing) :
    (c.step o).step p =
      match c.pending.filter (·.takes o) with
      | some s => { c with pending := some ((s.take o).take p) }
      | none => { c.settle with pending := some ((Span.ofObservation o).take p) } := by
  cases hf : c.pending.filter (·.takes o) with
  | some s =>
    obtain ⟨-, htakes⟩ := Option.filter_eq_some_iff.1 hf
    rw [step_of_takes ho hf]
    exact step_of_takes hp (Option.filter_some_pos (Span.takes_take h htakes))
  | none =>
    rw [step_of_not_takes ho hf]
    exact step_of_takes hp (Option.filter_some_pos (Span.takes_ofObservation h ho))

/-- Two observations of one address, access and isolation may change places. -/
theorem step_right_comm {o p : Observation} (h : o.Meets p) (c : Coalescing) :
    (c.step o).step p = (c.step p).step o := by
  by_cases ho : o.size = 0
  · rw [step_of_empty ho, step_of_empty ho]
  by_cases hp : p.size = 0
  · rw [step_of_empty hp, step_of_empty hp]
  have hsame : c.pending.filter (·.takes p) = c.pending.filter (·.takes o) := by
    simp only [Span.takes_congr h]
  rw [step_step h ho hp, step_step h.symm hp ho, hsame]
  simp only [Span.take_right_comm _ p o, Span.take_ofObservation_comm h]

/-! ## Runs -/

/-- Two orders of the same elements, both by a key, are folded to the same if elements with equal
keys may change places. -/
theorem foldl_eq_of_perm {α β : Type} {f : β → α → β} (key : α → Nat) {as bs : List α}
    (h : as.Perm bs) (has : as.Pairwise fun a b => key a ≤ key b)
    (hbs : bs.Pairwise fun a b => key a ≤ key b)
    (hcomm : ∀ a ∈ as, ∀ b ∈ as, key a = key b → ∀ c, f (f c a) b = f (f c b) a) (c : β) :
    as.foldl f c = bs.foldl f c := by
  induction as generalizing bs c with
  | nil => rw [h.nil_eq]
  | cons a as ih =>
    obtain ⟨ha, has⟩ := List.pairwise_cons.1 has
    obtain ⟨front, back, rfl⟩ := List.append_of_mem (h.subset List.mem_cons_self)
    -- all that the second order has before the element has the same key
    have hfront : ∀ b ∈ front ++ [a], b ∈ a :: as ∧ key b = key a := by
      intro b hb
      rcases List.mem_append.1 hb with hb | hb
      · have hmem : b ∈ a :: as := h.mem_iff.2 (List.mem_append_left _ hb)
        refine ⟨hmem, Nat.le_antisymm ?_ ?_⟩
        · exact (List.pairwise_append.1 hbs).2.2 b hb a List.mem_cons_self
        · rcases List.mem_cons.1 hmem with rfl | hmem
          · exact Nat.le_refl _
          · exact ha b hmem
      · cases List.mem_singleton.1 hb
        exact ⟨List.mem_cons_self, rfl⟩
    have hmove : (front ++ [a]).foldl f c = (a :: front).foldl f c :=
      (List.perm_append_singleton a front).foldl_eq' (fun b hb d hd =>
        hcomm b (hfront b hb).1 d (hfront d hd).1
          ((hfront b hb).2.trans (hfront d hd).2.symm)) c
    have hrest : as.Perm (front ++ back) := (h.trans List.perm_middle).cons_inv
    calc (a :: as).foldl f c = (front ++ back).foldl f (f c a) :=
          ih hrest has (hbs.sublist ((List.sublist_cons_self a back).append_left front))
            (fun b hb d hd => hcomm b (List.mem_cons_of_mem _ hb) d (List.mem_cons_of_mem _ hd)) _
      _ = back.foldl f ((a :: front).foldl f c) := by rw [List.foldl_append, List.foldl_cons]
      _ = back.foldl f ((front ++ [a]).foldl f c) := by rw [hmove]
      _ = (front ++ a :: back).foldl f c := by
        rw [← List.foldl_append, List.append_assoc, List.singleton_append]

/-- The blocks that are complete are those of the canonical coalescing. -/
theorem blocks_canonical (c : Coalescing) :
    c.canonical.settle.complete.blocks = c.settle.complete.blocks := by
  rw [← canonical_settle, ← canonical_complete]
  rfl

/-- Observations in two orders, both by address, have the same blocks, or none for the same reason,
if those at one address are of one kind. -/
theorem coalesce_perm (preferred forced : Nat) {os ps : List Observation} (h : os.Perm ps)
    (hos : os.Pairwise fun o p => o.address ≤ p.address)
    (hps : ps.Pairwise fun o p => o.address ≤ p.address)
    (hkinds : ∀ o ∈ os, ∀ p ∈ os, o.address = p.address → o.kind = p.kind) :
    coalesce preferred forced os = coalesce preferred forced ps := by
  by_cases hforced : forced ∈ [0, 8, 16, 32]
  · have hsame : (after preferred forced os).canonical = (after preferred forced ps).canonical := by
      rw [after, after, canonical_foldl, canonical_foldl]
      refine foldl_eq_of_perm Observation.address h hos hps (fun o ho p hp haddress c => ?_) _
      exact step_right_comm (Observation.meets_canonical haddress (hkinds o ho p hp haddress)) c
    rw [coalesce_eq_sortedBlocks preferred hforced hos,
      coalesce_eq_sortedBlocks preferred hforced hps, sortedBlocks, sortedBlocks,
      ← blocks_canonical, ← blocks_canonical (after preferred forced ps), hsame]
  · rw [coalesce, coalesce, start_eq_error preferred forced hforced]
    rfl

end Coalescing

end RegisterMap
