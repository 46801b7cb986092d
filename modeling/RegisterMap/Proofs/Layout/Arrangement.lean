import RegisterMap.Layout
import RegisterMap.Proofs.Element
import RegisterMap.Proofs.Success

/-!
# Arrangements

How blocks are arranged, as rules: `Arranged` has one rule for each kind of window, and
`arranged_of_arrange` says that a successful arrangement follows them. What is proved of layouts
goes by induction on these rules.
-/

namespace RegisterMap.Layout

/-! ## Windows -/

/-- The first byte past all of the blocks, at least `start`. -/
def reach (start : Nat) (ps : List Placed) : Nat := ps.foldr (fun p n => max p.fin n) start

@[simp] theorem reach_nil (start : Nat) : reach start [] = start := rfl

@[simp] theorem reach_cons (start : Nat) (p : Placed) (ps : List Placed) :
    reach start (p :: ps) = max p.fin (reach start ps) := rfl

theorem reach_append (start : Nat) (ps qs : List Placed) :
    reach start (ps ++ qs) = reach (reach start qs) ps := List.foldr_append

theorem reach_max (a b : Nat) (ps : List Placed) : reach (max a b) ps = max a (reach b ps) := by
  induction ps with
  | nil => rfl
  | cons p ps ih => simp only [reach_cons, ih]; omega

theorem reach_comm (start : Nat) (ps qs : List Placed) :
    reach (reach start ps) qs = reach (reach start qs) ps := by
  induction qs with
  | nil => rfl
  | cons q qs ih => rw [reach_cons, reach_cons, reach_max, ih]

theorem le_reach (start : Nat) (ps : List Placed) : start ≤ reach start ps := by
  induction ps with
  | nil => exact Nat.le_refl _
  | cons p ps ih => exact Nat.le_trans ih (Nat.le_max_right _ _)

theorem fin_le_reach (start : Nat) {p : Placed} {ps : List Placed} (h : p ∈ ps) :
    p.fin ≤ reach start ps := by
  induction ps with
  | nil => cases h
  | cons q ps ih =>
    rcases List.mem_cons.1 h with rfl | h
    · exact Nat.le_max_left _ _
    · exact Nat.le_trans (ih h) (Nat.le_max_right _ _)

theorem reach_le {start bound : Nat} {ps : List Placed} (hs : start ≤ bound)
    (h : ∀ p ∈ ps, p.fin ≤ bound) : reach start ps ≤ bound := by
  induction ps with
  | nil => exact hs
  | cons p ps ih =>
    exact Nat.max_le.2 ⟨h p List.mem_cons_self, ih fun q hq => h q (List.mem_cons_of_mem _ hq)⟩

theorem window_append (last : Nat) (ps : List Placed) :
    (window last ps).1 ++ (window last ps).2.2 = ps := by
  fun_induction window last ps <;> simp_all

/-- A window ends where the last of its blocks does. -/
theorem window_last (last : Nat) (ps : List Placed) :
    (window last ps).2.1 = reach last (window last ps).1 := by
  fun_induction window last ps with
  | case1 last => rfl
  | case2 last p ps h ws fin rest hw ih =>
    simp only [hw] at ih
    rw [ih, reach_cons, Nat.max_comm last, reach_max]
  | case3 last p ps h => rfl

theorem eq_of_window {start last : Nat} {ps ws rest : List Placed}
    (h : window start ps = (ws, last, rest)) : ps = ws ++ rest ∧ last = reach start ws := by
  have happ := window_append start ps
  have hlast := window_last start ps
  rw [h] at happ hlast
  exact ⟨happ.symm, hlast⟩

/-- A window and what lies behind it reach as far as all of the blocks. -/
theorem reach_window {start last : Nat} {p : Placed} {ps ws rest : List Placed}
    (hs : start ≤ p.offset) (h : window p.fin ps = (ws, last, rest)) :
    reach start (p :: ps) = reach last rest := by
  obtain ⟨rfl, rfl⟩ := eq_of_window h
  have hp : start ≤ p.fin := Nat.le_trans hs (Nat.le_add_right _ _)
  rw [reach_cons, reach_append, ← reach_max, ← reach_max, Nat.max_eq_left hp, reach_comm]

section Windows

variable {last : Nat} {p : Placed} {ps ws rest : List Placed}

/-- The blocks of a window lie between its ends. -/
theorem mem_window_bounds (hw : window p.fin ps = (ws, last, rest))
    (hps : (p :: ps).Pairwise fun p q => p.offset ≤ q.offset) :
    ∀ q ∈ p :: ws, p.offset ≤ q.offset ∧ q.fin ≤ last := by
  obtain ⟨rfl, rfl⟩ := eq_of_window hw
  intro q hq
  rcases List.mem_cons.1 hq with rfl | hq
  · exact ⟨Nat.le_refl _, le_reach _ _⟩
  · exact ⟨List.rel_of_pairwise_cons hps (List.mem_append_left _ hq), fin_le_reach _ hq⟩

theorem pairwise_rest (hw : window p.fin ps = (ws, last, rest))
    {r : Placed → Placed → Prop} (hps : (p :: ps).Pairwise r) : rest.Pairwise r := by
  obtain ⟨rfl, -⟩ := eq_of_window hw
  exact (List.pairwise_append.1 hps.of_cons).2.1

theorem forall_mem_rest (hw : window p.fin ps = (ws, last, rest)) {P : Placed → Prop}
    (h : ∀ q ∈ p :: ps, P q) : ∀ q ∈ rest, P q := by
  obtain ⟨rfl, -⟩ := eq_of_window hw
  exact fun q hq => h q (List.mem_cons_of_mem _ (List.mem_append_right _ hq))

theorem forall_mem_window (hw : window p.fin ps = (ws, last, rest)) {P : Placed → Prop}
    (h : ∀ q ∈ p :: ps, P q) : ∀ q ∈ p :: ws, P q := by
  obtain ⟨rfl, -⟩ := eq_of_window hw
  intro q hq
  rw [← List.cons_append] at h
  exact h q (List.mem_append_left _ hq)

/-- The blocks of a window are in order. -/
theorem pairwise_window (hw : window p.fin ps = (ws, last, rest))
    {r : Placed → Placed → Prop} (hps : (p :: ps).Pairwise r) : ws.Pairwise r := by
  obtain ⟨rfl, -⟩ := eq_of_window hw
  exact (List.pairwise_append.1 hps.of_cons).1

end Windows

/-! ## Arrangements -/

open Decl in
/-- The blocks `ps`, declared from `start` on, give the declarations and end at `reached`. There is
one rule for each kind of window: one block alone, several that all take the whole window, some
that do with the others in a structure behind them, and several none of which does. -/
inductive Arranged : (start : Nat) → (ps : List Placed) → (ds : List Decl) → (reached : Nat) → Prop
  | nil {start} : Arranged start [] [] start
  | alone {start p ps last rest ds reached} (start_le : start ≤ p.offset)
      (window_eq : window p.fin ps = ([], last, rest)) (tail : Arranged last rest ds reached) :
      Arranged start (p :: ps) (gap start p.offset ++ p.content.alone ++ ds) reached
  | full {start p ps ws last rest ds reached} (start_le : start ≤ p.offset)
      (window_eq : window p.fin ps = (ws, last, rest)) (whole : p.size = last - p.offset)
      (all_whole : ∀ q ∈ ws, q.size = last - p.offset) (tail : Arranged last rest ds reached) :
      Arranged start (p :: ps)
        (gap start p.offset ++
          [union p.offset (last - p.offset) ((p :: ws).flatMap (·.content.shared))] ++ ds) reached
  | covered {start p ps ws ps' last rest inner innerReached ds reached}
      (start_le : start ≤ p.offset) (window_eq : window p.fin ps = (ws ++ ps', last, rest))
      (whole : p.size = last - p.offset) (all_whole : ∀ q ∈ ws, q.size = last - p.offset)
      (within : Arranged p.offset ps' inner innerReached) (tail : Arranged last rest ds reached) :
      Arranged start (p :: ps)
        (gap start p.offset ++
          [union p.offset (last - p.offset) ((p :: ws).flatMap (·.content.shared) ++
            [struct p.offset (last - p.offset) (inner ++ gap innerReached last)])] ++ ds) reached
  | apart {start p ps ws last rest ds reached} (start_le : start ≤ p.offset)
      (window_eq : window p.fin ps = (ws, last, rest)) (tail : Arranged last rest ds reached) :
      Arranged start (p :: ps)
        (gap start p.offset ++
          [union p.offset (last - p.offset) ((p :: ws).map (·.padded p.offset last))] ++ ds) reached

theorem all_size_takeWhile (ws : List Placed) (size : Nat) :
    ∀ q ∈ ws.takeWhile (fun q => q.size == size), q.size = size := by
  intro q hq
  simpa using List.all_eq_true.1 List.all_takeWhile q hq

/-- What a window declares: the block that opens it, with those that share it up to `last`. -/
def declareWindow (p : Placed) (ws : List Placed) (last : Nat) : Except Failure (List Decl) :=
  let size := last - p.offset
  let whole := ws.takeWhile fun q => q.size == size
  let partly := ws.drop whole.length
  if ws.isEmpty then .ok p.content.alone
  else if p.size = size then
    if partly.isEmpty then .ok [.union p.offset size ((p :: whole).flatMap (·.content.shared))]
    else do
      let (ds, reached) ← arrange p.offset partly
      return [.union p.offset size ((p :: whole).flatMap (·.content.shared) ++
        [.struct p.offset size (ds ++ Decl.gap reached last)])]
  else .ok [.union p.offset size ((p :: ws).map (·.padded p.offset last))]

@[simp] theorem arrange_nil (start : Nat) : arrange start [] = .ok ([], start) := by
  rw [arrange]

theorem arrange_cons (start : Nat) (p : Placed) (ps : List Placed) :
    arrange start (p :: ps) =
      if p.offset < start then fail (.notMonotonic start p.offset)
      else do
        let here ← declareWindow p (window p.fin ps).1 (window p.fin ps).2.1
        let (ds, reached) ← arrange (window p.fin ps).2.1 (window p.fin ps).2.2
        return (Decl.gap start p.offset ++ here ++ ds, reached) := by
  rw [arrange]
  by_cases hs : p.offset < start
  · simp only [if_pos hs]
    rfl
  · simp only [if_neg hs, declareWindow]
    split
    · rfl
    · split
      · split
        · simp only [pure_bind, List.append_nil]
          rfl
        · cases arrange p.offset _ <;> rfl
      · rfl

theorem arranged_of_arrange {start : Nat} {ps : List Placed} {ds : List Decl} {reached : Nat}
    (h : arrange start ps = .ok (ds, reached)) : Arranged start ps ds reached := by
  induction hn : ps.length using Nat.strongRecOn generalizing start ps ds reached with
  | ind n ih =>
    subst hn
    cases ps with
    | nil =>
      rw [arrange_nil] at h
      cases h
      exact .nil
    | cons p ps =>
      rw [arrange_cons] at h
      split at h
      · cases h
      rename_i hs
      have hs : start ≤ p.offset := Nat.not_lt.1 hs
      obtain ⟨here, hhere, h⟩ := bind_eq_ok.1 h
      obtain ⟨⟨ds', reached'⟩, htail, h⟩ := bind_eq_ok.1 h
      cases h
      have hws := length_window p.fin ps
      have htail := ih _ (Nat.lt_succ_of_le (length_window_rest p.fin ps)) htail rfl
      obtain ⟨⟨ws, last, rest⟩, hw⟩ : ∃ w, window p.fin ps = w := ⟨_, rfl⟩
      rw [hw] at hhere htail hws
      simp only [declareWindow] at hhere
      split at hhere
      · -- the block is alone in its window
        rename_i hempty
        cases List.isEmpty_iff.1 hempty
        cases hhere
        exact .alone hs hw htail
      split at hhere
      · rename_i hwhole
        have happ := List.prefix_iff_eq_append.1
          (List.takeWhile_prefix (l := ws) fun q => q.size == last - p.offset)
        split at hhere
        · rename_i hpartly
          rw [List.isEmpty_iff.1 hpartly, List.append_nil] at happ
          cases hhere
          rw [happ]
          exact .full hs hw hwhole (happ ▸ all_size_takeWhile ws _) htail
        · obtain ⟨⟨inner, innerReached⟩, hinner, hhere⟩ := bind_eq_ok.1 hhere
          cases hhere
          rw [← happ] at hw
          refine .covered hs hw hwhole (all_size_takeWhile ws _) (ih _ ?_ hinner rfl) htail
          simp only [List.length_drop, List.length_cons] at hws ⊢
          omega
      · cases hhere
        exact .apart hs hw htail

theorem Arranged.reached_eq {start : Nat} {ps : List Placed} {ds : List Decl} {reached : Nat}
    (h : Arranged start ps ds reached) : reached = reach start ps := by
  induction h with
  | nil => rfl
  | alone hs hw _ ih => rw [reach_window hs hw, ih]
  | full hs hw _ _ _ ih => rw [reach_window hs hw, ih]
  | covered hs hw _ _ _ _ _ ih => rw [reach_window hs hw, ih]
  | apart hs hw _ ih => rw [reach_window hs hw, ih]

/-! ## Registers -/

/-- A register is one member when it is no array or a whole one; another array is declared element
by element, which takes a placeholder and elements that do not overlap. -/
theorem declareRegister_eq_ok_iff {r : Register} {c : Content} :
    declareRegister r = .ok c ↔
      ((r.dim = none ∨ r.isDeclaredAsArray = true) ∧
        c = ⟨[.register r r.offset], [.register r r.offset]⟩) ∨
      ∃ d, r.dim = some d ∧ r.isDeclaredAsArray = false ∧ Placeholder.isIn r.name = true ∧
        r.elementSize ≤ d.stride ∧
        c = ⟨elements r d, [.struct r.offset r.totalSize (elements r d)]⟩ := by
  have hok (a : Content) : (Except.ok a : Except Failure Content) = .ok c ↔ c = a :=
    ⟨fun h => (Except.ok.inj h).symm, fun h => h ▸ rfl⟩
  unfold declareRegister
  cases hd : r.dim with
  | none => simp [hok]
  | some d =>
    cases hwhole : r.isDeclaredAsArray with
    | true => simp [hok]
    | false =>
      by_cases hfit : Placeholder.isIn r.name = true ∧ r.elementSize ≤ d.stride
      · simp [hfit.1, hfit.2, Nat.not_lt.2 hfit.2, hok]
      · have hrefused : (!Placeholder.isIn r.name || d.stride < r.elementSize) = true := by
          grind
        simp only [hrefused, if_true]
        constructor
        · intro h
          cases h
        · grind

/-! ## Layouts -/

/-- The element can be declared, as the block `p`. -/
structure IsPlaced (e : Element) (p : Placed) : Prop where
  offset_eq : p.offset = e.offset
  size_eq : p.size = e.totalSize
  declare_eq : declare e = .ok p.content

theorem exists_isPlaced_of_mem {es : List Element} {ps : List Placed}
    (h : List.Forall₂ IsPlaced es ps) {p : Placed} (hp : p ∈ ps) : ∃ e ∈ es, IsPlaced e p := by
  induction h with
  | nil => cases hp
  | cons he _ ih =>
    rcases List.mem_cons.1 hp with rfl | hp
    · exact ⟨_, List.mem_cons_self, he⟩
    · obtain ⟨e, hm, he⟩ := ih hp
      exact ⟨e, List.mem_cons_of_mem _ hm, he⟩

theorem map_offset_of_isPlaced {es : List Element} {ps : List Placed}
    (h : List.Forall₂ IsPlaced es ps) : ps.map Placed.offset = es.map Element.offset := by
  induction h with
  | nil => rfl
  | cons he _ ih => rw [List.map_cons, List.map_cons, he.offset_eq, ih]

/-- What is needed of an element to place it. -/
def block (e : Element) : Block :=
  { offset := e.offset, size := e.totalSize, name := e.name, content := declare e }

theorem blocks_eq_map (es : List Element) : blocks es = (Element.visible es).map block := by
  unfold Element.visible
  induction es with
  | nil => rfl
  | cons e es ih =>
    rw [blocks]
    split <;> simp_all [block]

theorem mergeSort_blocks (es : List Element) :
    (blocks es).mergeSort Block.precedes = (Element.sortLevel (Element.visible es)).map block := by
  rw [blocks_eq_map]
  have hprecedes (a b : Element) : a.precedes b = (block a).precedes (block b) := rfl
  exact (List.map_mergeSort fun a _ b _ => hprecedes a b).symm

/-- The elements of a layout that are not hidden can all be declared, and the layout is what
arranges them. -/
theorem arrange_of_layout {es : List Element} {ds : List Decl} (h : layout es = .ok ds) :
    ∃ ps reached, List.Forall₂ IsPlaced (Element.sortLevel (Element.visible es)) ps ∧
      arrange 0 ps = .ok (ds, reached) := by
  unfold layout assemble at h
  rw [mergeSort_blocks] at h
  obtain ⟨ps, hps, h⟩ := bind_eq_ok.1 h
  obtain ⟨⟨ds', reached⟩, harr, h⟩ := bind_eq_ok.1 h
  cases h
  refine ⟨ps, reached, ?_, harr⟩
  refine (List.forall₂_map_left_iff.1 (mapM_eq_ok_iff.1 hps)).imp fun e p he => ?_
  obtain ⟨c, hc, he⟩ := bind_eq_ok.1 he
  cases he
  exact ⟨rfl, rfl, hc⟩

theorem arranged_of_layout {es : List Element} {ds : List Decl} (h : layout es = .ok ds) :
    ∃ ps reached, List.Forall₂ IsPlaced (Element.sortLevel (Element.visible es)) ps ∧
      ps.Pairwise (fun p q => p.offset ≤ q.offset) ∧ Arranged 0 ps ds reached := by
  obtain ⟨ps, reached, hplaced, harr⟩ := arrange_of_layout h
  refine ⟨ps, reached, hplaced, ?_, arranged_of_arrange harr⟩
  have hsorted := List.pairwise_map.2 (Element.pairwise_offset_sortLevel (Element.visible es))
  rw [← map_offset_of_isPlaced hplaced] at hsorted
  exact List.pairwise_map.1 hsorted

end RegisterMap.Layout
