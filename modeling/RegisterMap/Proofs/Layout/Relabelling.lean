import RegisterMap.Proofs.Layout.Arrangement

/-!
# Relabelled declarations

An arrangement looks at the places of its blocks, not at what they declare. A change to
declarations that keeps gaps and goes into unions and structures (`Decl.IsRelabelling`) may
therefore be made to the blocks or to what they are arranged as (`arrange_map`), and so for a whole
level when the blocks keep their order as well (`assemble_map`).
-/

namespace RegisterMap

namespace Decl

/-- The change keeps gaps, unions and structures, and is made to the members of the latter. -/
structure IsRelabelling (m : Decl → Decl) : Prop where
  reserved_eq : ∀ offset size, m (reserved offset size) = reserved offset size
  union_eq : ∀ offset size ds, m (union offset size ds) = union offset size (ds.map m)
  struct_eq : ∀ offset size ds, m (struct offset size ds) = struct offset size (ds.map m)

variable {m : Decl → Decl}

theorem IsRelabelling.map_gap (hm : IsRelabelling m) (a b : Nat) :
    (gap a b).map m = gap a b := by
  unfold gap
  split
  · rw [List.map_singleton, hm.reserved_eq]
  · rfl

end Decl

namespace Layout

variable {m : Decl → Decl}

/-- The content with a change made to each declaration. -/
def Content.map (m : Decl → Decl) (c : Content) : Content := ⟨c.alone.map m, c.shared.map m⟩

/-- The block with a change made to what it declares. -/
def Placed.map (m : Decl → Decl) (p : Placed) : Placed := { p with content := p.content.map m }

/-- What an arrangement gives, with a change made to each declaration. -/
def mapReached (m : Decl → Decl) (r : List Decl × Nat) : List Decl × Nat := (r.1.map m, r.2)

theorem window_map (m : Decl → Decl) (last : Nat) (ps : List Placed) :
    window last (ps.map (Placed.map m)) =
      ((window last ps).1.map (Placed.map m), (window last ps).2.1,
        (window last ps).2.2.map (Placed.map m)) := by
  induction ps generalizing last with
  | nil => rfl
  | cons p ps ih =>
    have hoffset : (p.map m).offset = p.offset := rfl
    have hfin : (p.map m).fin = p.fin := rfl
    rw [List.map_cons, window, window, hoffset, hfin, ih]
    by_cases hp : p.offset < last
    · simp only [if_pos hp, List.map_cons]
    · simp only [if_neg hp, List.map_nil, List.map_cons]

theorem padded_map (hm : Decl.IsRelabelling m) (first last : Nat) (p : Placed) :
    (p.map m).padded first last = m (p.padded first last) := by
  simp only [Placed.padded, hm.struct_eq, List.map_append, hm.map_gap]
  rfl

theorem flatMap_shared_map (m : Decl → Decl) (ps : List Placed) :
    (ps.map (Placed.map m)).flatMap (·.content.shared) =
      (ps.flatMap (·.content.shared)).map m := by
  rw [List.flatMap_map, List.map_flatMap]
  rfl

theorem declareWindow_map (hm : Decl.IsRelabelling m) {p : Placed} {ws : List Placed} (last : Nat)
    (harrange : ∀ qs, qs.length ≤ ws.length →
      arrange p.offset (qs.map (Placed.map m)) = (arrange p.offset qs).map (mapReached m)) :
    declareWindow (p.map m) (ws.map (Placed.map m)) last =
      (declareWindow p ws last).map (List.map m) := by
  have hwhole : (ws.map (Placed.map m)).takeWhile (fun q => q.size == last - p.offset) =
      (ws.takeWhile fun q => q.size == last - p.offset).map (Placed.map m) := List.takeWhile_map
  have hshared (qs : List Placed) := flatMap_shared_map m (p :: qs)
  have hpadded : (p.map m :: ws.map (Placed.map m)).map (·.padded p.offset last) =
      ((p :: ws).map (·.padded p.offset last)).map m := by
    rw [← List.map_cons, List.map_map, List.map_map]
    exact List.map_congr_left fun q _ => padded_map hm p.offset last q
  unfold declareWindow
  simp only [show (p.map m).offset = p.offset from rfl, show (p.map m).size = p.size from rfl,
    hwhole, List.length_map, ← List.map_drop, List.isEmpty_map]
  split
  · rfl
  · split
    · split
      · simp only [Except.map, List.map_cons, List.map_nil, hm.union_eq, ← hshared]
      · rw [harrange _ (by rw [List.length_drop]; omega)]
        cases arrange p.offset _ with
        | error f => rfl
        | ok r =>
          simp only [Except.map, bind, Except.bind, pure, Except.pure, mapReached,
            List.map_cons, List.map_nil, hm.union_eq, hm.struct_eq, List.map_append, hm.map_gap,
            ← hshared]
    · simp only [Except.map, List.map_cons, List.map_nil, hm.union_eq]
      exact congrArg _ (congrArg (fun ds => [Decl.union p.offset (last - p.offset) ds]) hpadded)

theorem arrange_map (hm : Decl.IsRelabelling m) (start : Nat) (ps : List Placed) :
    arrange start (ps.map (Placed.map m)) = (arrange start ps).map (mapReached m) := by
  induction hn : ps.length using Nat.strongRecOn generalizing start ps with
  | ind n ih =>
    subst hn
    cases ps with
    | nil =>
      rw [List.map_nil, arrange_nil]
      rfl
    | cons p ps =>
      have hwindow := Nat.lt_succ_of_le (length_window p.fin ps)
      have hrest := Nat.lt_succ_of_le (length_window_rest p.fin ps)
      rw [List.map_cons, arrange_cons, arrange_cons]
      simp only [show (p.map m).offset = p.offset from rfl, show (p.map m).fin = p.fin from rfl,
        window_map]
      by_cases hs : p.offset < start
      · simp only [if_pos hs]
        rfl
      · simp only [if_neg hs]
        rw [declareWindow_map hm _ fun qs hqs =>
            ih _ (Nat.lt_of_le_of_lt hqs hwindow) p.offset qs rfl,
          ih _ hrest _ _ rfl]
        cases declareWindow p _ _ with
        | error f => rfl
        | ok here =>
          cases arrange _ (window p.fin ps).2.2 with
          | error f => rfl
          | ok r =>
            simp only [Except.map, bind, Except.bind, pure, Except.pure, mapReached,
              List.map_append, hm.map_gap]

/-- The block with its content, if there is any. -/
def Block.place (b : Block) : Except Failure Placed := do
  return { offset := b.offset, size := b.size, content := ← b.content }

/-- Blocks that keep their order and declare the same but for a relabelling are declared the same
but for it. -/
theorem assemble_map {bs : List Block} {f : Block → Block} (hm : Decl.IsRelabelling m)
    (hprecedes : ∀ a ∈ bs, ∀ b ∈ bs, a.precedes b = (f a).precedes (f b))
    (hplace : ∀ b ∈ bs, (f b).place = b.place.map (Placed.map m)) :
    assemble (bs.map f) = (assemble bs).map (List.map m) := by
  have hassemble (bs : List Block) : assemble bs = do
      let ps ← (bs.mergeSort Block.precedes).mapM Block.place
      return (← arrange 0 ps).1 := rfl
  have hsorted : ∀ b ∈ bs.mergeSort Block.precedes, b ∈ bs := fun b hb => List.mem_mergeSort.1 hb
  rw [hassemble, hassemble, ← List.map_mergeSort hprecedes,
    mapM_map_of_comm (Placed.map m) fun b hb => hplace b (hsorted b hb)]
  cases (bs.mergeSort Block.precedes).mapM Block.place with
  | error f => rfl
  | ok ps =>
    simp only [Except.map, bind, Except.bind, arrange_map hm]
    cases arrange 0 ps <;> rfl

end Layout

end RegisterMap
