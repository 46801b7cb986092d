import RegisterMap.Proofs.Layout.Tiling

/-!
# Proper declarations

What `layout_tiles` says of unions and structures holds inside clusters too, and no union is
without members: `layout_proper`. Members of an arrangement are made of gaps, unions and structures
around what its blocks declare, so that what these keep holds of all of them
(`Arranged.forall_mem`).
-/

namespace RegisterMap

namespace Decl

/-- At every depth, the members of a cluster follow each other from 0 on and those of a structure
through its range, a union has members, which all take its range, and no gap is empty. Arrays are
packed. -/
inductive Proper : Decl → Prop
  | register {r : Register} {offset : Nat} (whole : r.dim = none ∨ r.isDeclaredAsArray = true) :
      Proper (.register r offset)
  | element (r : Register) (index offset : Nat) : Proper (.element r index offset)
  | cluster {c : Cluster} {offset size : Nat} {ds : List Decl} (tiles : Tiles 0 ds (lastFin ds))
      (proper : ∀ d ∈ ds, Proper d) : Proper (.cluster c offset size ds)
  | union {offset size : Nat} {ds : List Decl} (nonempty : ds ≠ [])
      (spans : ∀ d ∈ ds, d.offset = offset ∧ d.size = size) (proper : ∀ d ∈ ds, Proper d) :
      Proper (.union offset size ds)
  | struct {offset size : Nat} {ds : List Decl} (tiles : Tiles offset ds (offset + size))
      (proper : ∀ d ∈ ds, Proper d) : Proper (.struct offset size ds)
  | reserved {offset size : Nat} (pos : 0 < size) : Proper (.reserved offset size)

theorem proper_of_mem_gap {first last : Nat} {d : Decl} (h : d ∈ gap first last) : d.Proper := by
  unfold gap at h
  split at h
  · cases List.mem_singleton.1 h
    exact .reserved (by omega)
  · cases h

/-- Declarations that follow each other end where the last of them does. -/
theorem Tiles.lastFin_eq {first last : Nat} {ds : List Decl} (h : Tiles first ds last)
    (hds : ds ≠ []) : lastFin ds = last := by
  induction ds generalizing first with
  | nil => exact absurd rfl hds
  | cons d ds ih =>
    cases ds with
    | nil => exact h.2
    | cons e es =>
      have htail := ih h.2 (List.cons_ne_nil _ _)
      rw [lastFin, List.getLast?_cons_cons]
      exact htail

theorem Tiles.to_lastFin {last : Nat} {ds : List Decl} (h : Tiles 0 ds last) :
    Tiles 0 ds (lastFin ds) := by
  cases ds with
  | nil => rfl
  | cons d ds => rwa [h.lastFin_eq (List.cons_ne_nil _ _)]

end Decl

namespace Layout

/-- The block declares something as a member of a union, and all that it declares has the
property. -/
structure Placed.Declares (p : Placed) (P : Decl → Prop) : Prop where
  shared_ne : p.content.shared ≠ []
  alone : ∀ d ∈ p.content.alone, P d
  shared : ∀ d ∈ p.content.shared, P d

/-- What holds of gaps and of what the blocks declare, and of a union or structure when it holds of
its members, holds of all declarations of an arrangement. -/
theorem Arranged.forall_mem {P : Decl → Prop} (hgap : ∀ a b, ∀ d ∈ Decl.gap a b, P d)
    (hunion : ∀ offset size ds, ds ≠ [] → (∀ d ∈ ds, P d) → P (.union offset size ds))
    (hstruct : ∀ offset size ds, (∀ d ∈ ds, P d) → P (.struct offset size ds))
    {start : Nat} {ps : List Placed} {ds : List Decl} {reached : Nat}
    (h : Arranged start ps ds reached) (hps : ∀ p ∈ ps, p.Declares P) : ∀ d ∈ ds, P d := by
  have hwindow {a b : Nat} {here ds : List Decl} (hhere : ∀ d ∈ here, P d) (hds : ∀ d ∈ ds, P d) :
      ∀ d ∈ Decl.gap a b ++ here ++ ds, P d :=
    List.forall_mem_append.2 ⟨List.forall_mem_append.2 ⟨hgap a b, hhere⟩, hds⟩
  have hshared {qs : List Placed} (hqs : ∀ q ∈ qs, q.Declares P) :
      ∀ d ∈ qs.flatMap (·.content.shared), P d := by
    intro d hd
    obtain ⟨q, hq, hd⟩ := List.mem_flatMap.1 hd
    exact (hqs q hq).shared d hd
  have hshared_ne {q : Placed} (qs : List Placed) (hq : q.Declares P) :
      (q :: qs).flatMap (·.content.shared) ≠ [] :=
    List.append_ne_nil_of_left_ne_nil hq.shared_ne _
  induction h with
  | nil =>
    intro d hd
    cases hd
  | alone hs hw _ ih => exact hwindow (hps _ List.mem_cons_self).alone (ih (forall_mem_rest hw hps))
  | full hs hw hwhole hall _ ih =>
    have hmembers := hshared (forall_mem_window hw hps)
    exact hwindow (List.forall_mem_singleton.2
        (hunion _ _ _ (hshared_ne _ (hps _ List.mem_cons_self)) hmembers))
      (ih (forall_mem_rest hw hps))
  | covered hs hw hwhole hall within _ ihWithin ih =>
    have hmembers := forall_mem_window hw hps
    rw [← List.cons_append, List.forall_mem_append] at hmembers
    refine hwindow (List.forall_mem_singleton.2 (hunion _ _ _ ?_ ?_)) (ih (forall_mem_rest hw hps))
    · exact List.append_ne_nil_of_left_ne_nil (hshared_ne _ (hps _ List.mem_cons_self)) _
    · refine List.forall_mem_append.2 ⟨hshared hmembers.1, List.forall_mem_singleton.2 ?_⟩
      exact hstruct _ _ _ (List.forall_mem_append.2 ⟨ihWithin hmembers.2, hgap _ _⟩)
  | apart hs hw _ ih =>
    refine hwindow (List.forall_mem_singleton.2 (hunion _ _ _ (List.cons_ne_nil _ _) ?_))
      (ih (forall_mem_rest hw hps))
    intro d hd
    obtain ⟨q, hq, rfl⟩ := List.mem_map.1 hd
    exact hstruct _ _ _ (hwindow (forall_mem_window hw hps q hq).alone (hgap _ _))

/-! ## What elements declare -/

theorem declares_single {d : Decl} (hd : d.Proper) {offset size : Nat} :
    Placed.Declares ⟨offset, size, ⟨[d], [d]⟩⟩ Decl.Proper where
  shared_ne := List.cons_ne_nil _ _
  alone := List.forall_mem_singleton.2 hd
  shared := List.forall_mem_singleton.2 hd

theorem declares_of_declareRegister {r : Register} {p : Placed}
    (h : declareRegister r = .ok p.content) : p.Declares Decl.Proper := by
  obtain ⟨offset, size, content⟩ := p
  rcases declareRegister_eq_ok_iff.1 h with ⟨hwhole, rfl⟩ | ⟨d, hd, -, -, hsize, rfl⟩
  · exact declares_single (.register hwhole)
  · have hproper : ∀ e ∈ elements r d, e.Proper := by
      intro e he
      obtain ⟨i, -, he⟩ := List.mem_flatMap.1 he
      rcases List.mem_cons.1 he with rfl | he
      · exact .element _ _ _
      · exact Decl.proper_of_mem_gap he
    have htiles := tiles_elements hsize
    have htotal : r.totalSize = d.stride * d.count := by simp [Register.totalSize, hd]
    rw [← htotal] at htiles
    exact {
      shared_ne := List.cons_ne_nil _ _
      alone := hproper
      shared := List.forall_mem_singleton.2 (.struct htiles hproper) }

/-- Proper blocks give proper declarations, as these are exact. -/
theorem Arranged.proper {start : Nat} {ps : List Placed} {ds : List Decl} {reached : Nat}
    (h : Arranged start ps ds reached) (hps : ps.Pairwise fun p q => p.offset ≤ q.offset)
    (hfills : ∀ p ∈ ps, p.Fills) (hproper : ∀ p ∈ ps, p.Declares Decl.Proper) :
    ∀ d ∈ ds, d.Proper := by
  have hexact := h.exact hps hfills
  suffices hmem : ∀ d ∈ ds, d.Exact → d.Proper from fun d hd => hmem d hd (hexact d hd)
  refine h.forall_mem ?_ ?_ ?_ ?_
  · exact fun a b d hd _ => Decl.proper_of_mem_gap hd
  · rintro offset size ds hne hds (_ | _ | _ | ⟨hspans, hexact⟩)
    exact .union hne hspans fun d hd => hds d hd (hexact d hd)
  · rintro offset size ds hds (_ | _ | _ | _ | ⟨htiles, hexact⟩)
    exact .struct htiles fun d hd => hds d hd (hexact d hd)
  · exact fun p hp => {
      shared_ne := (hproper p hp).shared_ne
      alone := fun d hd _ => (hproper p hp).alone d hd
      shared := fun d hd _ => (hproper p hp).shared d hd }

/-- The element declares proper members only. -/
def IsProper (e : Element) : Prop :=
  ∀ p : Placed, declare e = .ok p.content → p.Declares Decl.Proper

theorem proper_of_layout {es : List Element} {ds : List Decl} (h : layout es = .ok ds)
    (hes : ∀ e ∈ es, IsProper e) : Decl.Tiles 0 ds (Decl.lastFin ds) ∧ ∀ d ∈ ds, d.Proper := by
  obtain ⟨ps, reached, hplaced, hps, harr⟩ := arranged_of_layout h
  have hfills := fills_of_isPlaced hplaced
  refine ⟨(harr.tiles hfills).to_lastFin, harr.proper hps hfills fun p hp => ?_⟩
  obtain ⟨e, he, hep⟩ := exists_isPlaced_of_mem hplaced hp
  have he := (List.mem_filter.1 ((Element.sortLevel_perm _).mem_iff.1 he)).1
  exact hes e he p hep.declare_eq

theorem proper_of_fillCluster {c : Cluster} {members filled : List Decl}
    (h : fillCluster c members = .ok filled) (htiles : Decl.Tiles 0 members (Decl.lastFin members))
    (hmembers : ∀ d ∈ members, d.Proper) :
    Decl.Tiles 0 filled (Decl.lastFin filled) ∧ ∀ d ∈ filled, d.Proper := by
  unfold fillCluster at h
  cases hd : c.dim with
  | none =>
    rw [hd] at h
    cases h
    exact ⟨htiles, hmembers⟩
  | some d =>
    simp only [hd] at h
    split at h
    · cases h
    · rename_i hstride
      cases h
      refine ⟨(htiles.append (Decl.tiles_gap (Nat.not_lt.1 hstride))).to_lastFin, ?_⟩
      exact List.forall_mem_append.2 ⟨hmembers, fun d hd => Decl.proper_of_mem_gap hd⟩

theorem isProper (e : Element) : IsProper e := by
  induction e using Element.tree_induction with
  | register r =>
    intro p h
    rw [declare] at h
    exact declares_of_declareRegister h
  | cluster c es ih =>
    intro p h
    obtain ⟨offset, size, content⟩ := p
    rw [declare] at h
    obtain ⟨members, hmembers, h⟩ := bind_eq_ok.1 h
    obtain ⟨filled, hfilled, h⟩ := bind_eq_ok.1 h
    cases h
    obtain ⟨htiles, hproper⟩ := proper_of_layout hmembers ih
    obtain ⟨htiles, hproper⟩ := proper_of_fillCluster hfilled htiles hproper
    exact declares_single (.cluster htiles hproper)

end Layout

/-- The declarations of a layout follow each other from 0 on and are proper at every depth. -/
theorem layout_proper {es : List Element} {ds : List Decl} (h : layout es = .ok ds) :
    Decl.Tiles 0 ds (Decl.lastFin ds) ∧ ∀ d ∈ ds, d.Proper :=
  Layout.proper_of_layout h fun e _ => Layout.isProper e

end RegisterMap
