import RegisterMap.Proofs.Layout.Proper
import RegisterMap.Proofs.Sorting

/-!
# Levels that can be laid out

Blocks in order can always be arranged, so a level has a layout exactly when each of its elements
that is not hidden can be declared (`layout_isOk_iff`). What that takes is said by
`Element.isDeclarable_register_iff` and `Element.isDeclarable_cluster_iff`. Neither putting elements
in order nor taking out deleted ones gets in the way of it.
-/

namespace RegisterMap

namespace Layout

/-- Behind a window of blocks in order, blocks begin at its end or later. -/
theorem le_offset_of_window {last start : Nat} {ps ws rest : List Placed}
    (hw : window start ps = (ws, last, rest))
    (hps : ps.Pairwise fun p q => p.offset ≤ q.offset) : ∀ q ∈ rest, last ≤ q.offset := by
  induction ps generalizing start ws with
  | nil =>
    cases hw
    intro q hq
    cases hq
  | cons p ps ih =>
    rw [window] at hw
    obtain ⟨hp, hps⟩ := List.pairwise_cons.1 hps
    split at hw
    · obtain ⟨⟨ws', last', rest'⟩, htail⟩ : ∃ w, window (max start p.fin) ps = w := ⟨_, rfl⟩
      rw [htail] at hw
      cases hw
      exact ih htail hps
    · rename_i hstart
      cases hw
      intro q hq
      have hlast : last ≤ p.offset := Nat.not_lt.1 hstart
      rcases List.mem_cons.1 hq with rfl | hq
      · exact hlast
      · exact Nat.le_trans hlast (hp q hq)

/-- Blocks in order can be arranged from anywhere before the first of them. -/
theorem exists_arrange {start : Nat} {ps : List Placed}
    (hps : ps.Pairwise fun p q => p.offset ≤ q.offset) (hstart : ∀ p ∈ ps, start ≤ p.offset) :
    ∃ r, arrange start ps = .ok r := by
  induction hn : ps.length using Nat.strongRecOn generalizing start ps with
  | ind n ih =>
    subst hn
    cases ps with
    | nil => exact ⟨_, arrange_nil start⟩
    | cons p ps =>
      obtain ⟨⟨ws, last, rest⟩, hw⟩ : ∃ w, window p.fin ps = w := ⟨_, rfl⟩
      have hwindow := length_window p.fin ps
      have hrest := length_window_rest p.fin ps
      rw [hw] at hwindow hrest
      obtain ⟨tail, htail⟩ := ih _ (Nat.lt_succ_of_le hrest) (pairwise_rest hw hps)
        (le_offset_of_window hw hps.of_cons) rfl
      have hhere : ∃ here, declareWindow p ws last = .ok here := by
        simp only [declareWindow]
        split
        · exact ⟨_, rfl⟩
        · split
          · split
            · exact ⟨_, rfl⟩
            · have hsub := List.drop_sublist
                (ws.takeWhile fun q => q.size == last - p.offset).length ws
              have hlength := hsub.length_le
              obtain ⟨inner, hinner⟩ := ih _ (Nat.lt_succ_of_le (Nat.le_trans hlength hwindow))
                ((pairwise_window hw hps).sublist hsub)
                (fun q hq => (mem_window_bounds hw hps q
                  (List.mem_cons_of_mem _ (hsub.subset hq))).1) rfl
              rw [hinner]
              exact ⟨_, rfl⟩
          · exact ⟨_, rfl⟩
      obtain ⟨here, hhere⟩ := hhere
      rw [arrange_cons, if_neg (Nat.not_lt.2 (hstart p List.mem_cons_self)), hw]
      simp only [hhere, htail]
      exact ⟨_, rfl⟩

end Layout

namespace Element

/-- The element can be declared. -/
def IsDeclarable (e : Element) : Prop := ∃ c, Layout.declare e = .ok c

theorem isDeclarable_of_isPlaced {es : List Element} {ps : List Layout.Placed}
    (h : List.Forall₂ Layout.IsPlaced es ps) : ∀ e ∈ es, e.IsDeclarable := by
  induction h with
  | nil =>
    intro e he
    cases he
  | cons he _ ih => exact List.forall_mem_cons.2 ⟨⟨_, he.declare_eq⟩, ih⟩

theorem exists_isPlaced {es : List Element} (h : ∀ e ∈ es, e.IsDeclarable) :
    ∃ ps, List.Forall₂ Layout.IsPlaced es ps := by
  induction es with
  | nil => exact ⟨[], .nil⟩
  | cons e es ih =>
    obtain ⟨⟨c, hc⟩, hes⟩ := List.forall_mem_cons.1 h
    obtain ⟨ps, hps⟩ := ih hes
    exact ⟨⟨e.offset, e.totalSize, c⟩ :: ps, .cons ⟨rfl, rfl, hc⟩ hps⟩

end Element

open Element Layout in
/-- A level has a layout exactly when all that is visible of it can be declared. -/
theorem layout_isOk_iff {es : List Element} :
    (∃ ds, layout es = .ok ds) ↔ ∀ e ∈ Element.visible es, e.IsDeclarable := by
  have hmem {e : Element} : e ∈ sortLevel (visible es) ↔ e ∈ visible es :=
    (sortLevel_perm _).mem_iff
  constructor
  · rintro ⟨ds, h⟩ e he
    obtain ⟨ps, reached, hplaced, -, -⟩ := arranged_of_layout h
    exact isDeclarable_of_isPlaced hplaced e (hmem.2 he)
  · intro h
    obtain ⟨ps, hplaced⟩ := exists_isPlaced fun e he => h e (hmem.1 he)
    have hsorted := List.pairwise_map.2 (pairwise_offset_sortLevel (visible es))
    rw [← map_offset_of_isPlaced hplaced] at hsorted
    obtain ⟨r, hr⟩ := exists_arrange (List.pairwise_map.1 hsorted) fun _ _ => Nat.zero_le _
    have hplace : ((sortLevel (visible es)).map block).mapM (fun b => do
        return { offset := b.offset, size := b.size, content := ← b.content : Placed }) =
        .ok ps := by
      refine mapM_eq_ok_iff.2 (List.forall₂_map_left_iff.2 (hplaced.imp fun e p he => ?_))
      obtain ⟨offset, size, content⟩ := p
      obtain ⟨rfl, rfl, he⟩ := he
      exact bind_eq_ok.2 ⟨content, he, rfl⟩
    refine ⟨r.1, ?_⟩
    unfold layout assemble
    rw [mergeSort_blocks, hplace]
    exact bind_eq_ok.2 ⟨ps, rfl, bind_eq_ok.2 ⟨r, hr, rfl⟩⟩

/-- A layout ends where the last of its elements does. -/
theorem lastFin_of_layout {es : List Element} {ds : List Decl} (h : layout es = .ok ds) :
    Decl.lastFin ds = Element.extent (Element.visible es) := by
  obtain ⟨ps, reached, hplaced, -, harr⟩ := Layout.arranged_of_layout h
  have htiles := harr.tiles (Layout.fills_of_isPlaced hplaced)
  have hreached : reached = Element.extent (Element.visible es) := by
    rw [harr.reached_eq, Layout.reach_of_isPlaced hplaced]
    exact Element.extent_perm (Element.sortLevel_perm _)
  cases ds with
  | nil => exact htiles.trans hreached
  | cons d ds => rw [htiles.lastFin_eq (List.cons_ne_nil d ds), hreached]

namespace Element

/-- A register can be declared unless it is an array that is neither one member nor has a
placeholder in its name and elements that do not overlap. -/
theorem isDeclarable_register_iff {r : Register} :
    (register r).IsDeclarable ↔ r.dim = none ∨ r.isDeclaredAsArray = true ∨
      Placeholder.isIn r.name = true ∧ ∀ d, r.dim = some d → r.elementSize ≤ d.stride := by
  unfold IsDeclarable
  simp only [Layout.declare, Layout.declareRegister_eq_ok_iff]
  constructor
  · rintro ⟨c, ⟨hdim | hwhole, -⟩ | ⟨d, hd, -, hin, hsize, -⟩⟩
    · exact .inl hdim
    · exact .inr (.inl hwhole)
    · refine .inr (.inr ⟨hin, fun d' hd' => ?_⟩)
      cases hd.symm.trans hd'
      exact hsize
  · intro h
    cases hdim : r.dim with
    | none => exact ⟨_, .inl ⟨.inl rfl, rfl⟩⟩
    | some d =>
      by_cases hwhole : r.isDeclaredAsArray = true
      · exact ⟨_, .inl ⟨.inr hwhole, rfl⟩⟩
      · rcases h with hnone | hwhole' | ⟨hin, hsize⟩
        · simp [hdim] at hnone
        · exact absurd hwhole' hwhole
        · exact ⟨_, .inr ⟨d, rfl, by simpa using hwhole, hin, hsize d hdim, rfl⟩⟩

/-- A cluster can be declared when what is visible of it can, and ends before the next element of
an array begins. -/
theorem isDeclarable_cluster_iff {c : Cluster} {es : List Element} :
    (cluster c es).IsDeclarable ↔
      ∀ e ∈ visible es, e.IsDeclarable ∧ ∀ d, c.dim = some d → e.fin ≤ d.stride := by
  have hlayout : Layout.assemble (Layout.blocks es) = layout es := rfl
  have hsplit : (cluster c es).IsDeclarable ↔
      (∃ ds, layout es = .ok ds) ∧ ∀ d, c.dim = some d → extent (visible es) ≤ d.stride := by
    unfold IsDeclarable
    simp only [Layout.declare, hlayout, bind_eq_ok]
    constructor
    · rintro ⟨content, members, hmembers, filled, hfilled, -⟩
      refine ⟨⟨members, hmembers⟩, fun d hd => ?_⟩
      rw [← lastFin_of_layout hmembers]
      unfold Layout.fillCluster at hfilled
      simp only [hd] at hfilled
      split at hfilled
      · cases hfilled
      · rename_i hstride
        exact Nat.not_lt.1 hstride
    · rintro ⟨⟨members, hmembers⟩, hstride⟩
      have hfilled : ∃ filled, Layout.fillCluster c members = .ok filled := by
        unfold Layout.fillCluster
        cases hd : c.dim with
        | none => exact ⟨_, rfl⟩
        | some d =>
          have hle := hstride d hd
          rw [← lastFin_of_layout hmembers] at hle
          simp only [if_neg (Nat.not_lt.2 hle)]
          exact ⟨_, rfl⟩
      obtain ⟨filled, hfilled⟩ := hfilled
      exact ⟨_, members, hmembers, filled, hfilled, rfl⟩
  rw [hsplit, layout_isOk_iff]
  simp only [extent_le_iff]
  exact ⟨fun h e he => ⟨h.1 e he, fun d hd => h.2 d hd e he⟩,
    fun h => ⟨fun e he => (h e he).1, fun d hd e he => (h e he).2 d hd⟩⟩

/-! ## Sorted and cleared levels -/

theorem flags_compact (e : Element) : e.compact.flags = e.flags := by cases e <;> rfl

theorem mem_visible_iff {e : Element} {es : List Element} :
    e ∈ visible es ↔ e ∈ es ∧ e.flags.hidden = false := by
  rw [visible, List.mem_filter, Bool.not_eq_true']

theorem exists_of_mem_visible_sortAll {e : Element} {es : List Element}
    (h : e ∈ visible (sortAll es)) : ∃ f ∈ visible es, f.sortWithin = e := by
  obtain ⟨he, hvisible⟩ := mem_visible_iff.1 h
  obtain ⟨f, hf, rfl⟩ := mem_sortAll_iff.1 he
  exact ⟨f, mem_visible_iff.2 ⟨hf, by rw [← hvisible, flags_sortWithin]⟩, rfl⟩

theorem exists_of_mem_visible_compactAll {e : Element} {es : List Element}
    (h : e ∈ visible (compactAll es)) : ∃ f ∈ visible es, f.compact = e := by
  obtain ⟨he, hvisible⟩ := mem_visible_iff.1 h
  obtain ⟨f, hf, -, rfl⟩ := mem_compactAll_iff.1 he
  exact ⟨f, mem_visible_iff.2 ⟨hf, by rw [← hvisible, flags_compact]⟩, rfl⟩

theorem fin_sortWithin (e : Element) : e.sortWithin.fin = e.fin := by
  have hplace := samePlace_sortWithin e
  rw [fin, fin, hplace.offset_eq, hplace.totalSize_eq]

theorem fin_compact_le (e : Element) : e.compact.fin ≤ e.fin := by
  induction e using tree_induction with
  | register r => exact Nat.le_refl _
  | cluster c es ih =>
    unfold fin compact totalSize
    cases c.dim with
    | some d => exact Nat.le_refl _
    | none =>
      refine Nat.add_le_add_left (extent_le_iff.2 fun e he => ?_) _
      obtain ⟨f, hf, -, rfl⟩ := mem_compactAll_iff.1 he
      exact Nat.le_trans (ih f hf) (fin_le_extent hf)

theorem IsDeclarable.sortWithin {e : Element} (h : e.IsDeclarable) :
    e.sortWithin.IsDeclarable := by
  induction e using tree_induction with
  | register r => exact h
  | cluster c es ih =>
    rw [isDeclarable_cluster_iff] at h
    refine isDeclarable_cluster_iff.2 fun e he => ?_
    obtain ⟨f, hf, rfl⟩ := exists_of_mem_visible_sortAll he
    obtain ⟨hdeclarable, hfit⟩ := h f hf
    rw [fin_sortWithin]
    exact ⟨ih f (mem_visible_iff.1 hf).1 hdeclarable, hfit⟩

theorem IsDeclarable.compact {e : Element} (h : e.IsDeclarable) : e.compact.IsDeclarable := by
  induction e using tree_induction with
  | register r => exact h
  | cluster c es ih =>
    rw [isDeclarable_cluster_iff] at h
    refine isDeclarable_cluster_iff.2 fun e he => ?_
    obtain ⟨f, hf, rfl⟩ := exists_of_mem_visible_compactAll he
    obtain ⟨hdeclarable, hfit⟩ := h f hf
    exact ⟨ih f (mem_visible_iff.1 hf).1 hdeclarable,
      fun d hd => Nat.le_trans (fin_compact_le f) (hfit d hd)⟩

end Element

end RegisterMap
