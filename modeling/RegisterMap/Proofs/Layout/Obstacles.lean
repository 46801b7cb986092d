import RegisterMap.Proofs.Layout.Declarable
import RegisterMap.Proofs.Layout.Relabelling

/-!
# Levels that cannot be laid out

A layout fails for one reason alone: at some depth, among what is visible, there is an element that
no member can stand for (`Element.IsObstacle`). The failure names such an element, and elements that
come in any order are no reason for one: `layout_fails`.
-/

namespace RegisterMap

namespace Element

/-- The element stands in the way of a layout: an array of registers that is not one member and has
no placeholder in its name or elements that overlap, or an array of clusters in which what is
visible reaches behind the next element. -/
def IsObstacle : Element → Prop
  | register r => ∃ d, r.dim = some d ∧ r.isDeclaredAsArray = false ∧
      (Placeholder.isIn r.name = false ∨ d.stride < r.elementSize)
  | cluster c es => ∃ d, c.dim = some d ∧ d.stride < extent (visible es)

/-- The element is one of the list that is not hidden, or is visible in the children of one that is
a cluster. -/
inductive VisibleIn : List Element → Element → Prop
  | here {es : List Element} {e : Element} (mem : e ∈ visible es) : VisibleIn es e
  | inside {es fs : List Element} {c : Cluster} {e : Element} (mem : cluster c fs ∈ visible es)
      (child : VisibleIn fs e) : VisibleIn es e

/-- An element that can be declared is no obstacle. -/
theorem IsDeclarable.not_isObstacle {e : Element} (h : e.IsDeclarable) : ¬e.IsObstacle := by
  cases e with
  | register r =>
    rintro ⟨d, hd, hapart, hobstacle⟩
    rcases isDeclarable_register_iff.1 h with hnone | hwhole | ⟨hin, hsize⟩
    · rw [hd] at hnone
      cases hnone
    · rw [hapart] at hwhole
      cases hwhole
    · rcases hobstacle with hmissing | hstride
      · rw [hin] at hmissing
        cases hmissing
      · exact Nat.not_lt.2 (hsize d hd) hstride
  | cluster c es =>
    rintro ⟨d, hd, hstride⟩
    have hfit : extent (visible es) ≤ d.stride :=
      extent_le_iff.2 fun e he => (isDeclarable_cluster_iff.1 h e he).2 d hd
    exact Nat.not_lt.2 hfit hstride

/-- Where everything visible of a level can be declared there is no obstacle at any depth. -/
theorem VisibleIn.not_isObstacle {es : List Element} {e : Element} (h : VisibleIn es e)
    (hes : ∀ e ∈ visible es, e.IsDeclarable) : ¬e.IsObstacle := by
  induction h with
  | here mem => exact (hes _ mem).not_isObstacle
  | inside mem _ ih => exact ih fun e he => (isDeclarable_cluster_iff.1 (hes _ mem) e he).1

end Element

namespace Layout

open Element

theorem place_block_eq_error {e : Element} {f : Failure} (h : (block e).place = .error f) :
    declare e = .error f := by
  cases hdeclare : declare e with
  | error f' =>
    simp only [Block.place, block, hdeclare] at h
    cases h
    rfl
  | ok c =>
    simp only [Block.place, block, hdeclare] at h
    cases h

theorem isDeclarable_of_place_block {e : Element} {p : Placed} (h : (block e).place = .ok p) :
    e.IsDeclarable := by
  obtain ⟨c, hc, -⟩ := bind_eq_ok.1 h
  exact ⟨c, hc⟩

/-- When a level cannot be laid out, what fails is the declaration of an element of it. Blocks in
order are never refused. -/
theorem exists_declare_eq_error {es : List Element} {f : Failure} (h : layout es = .error f) :
    ∃ e ∈ visible es, declare e = .error f := by
  have hlayout : layout es = do
      let ps ← ((sortLevel (visible es)).map block).mapM Block.place
      return (← arrange 0 ps).1 := by
    rw [← mergeSort_blocks]
    rfl
  have hmem {e : Element} : e ∈ sortLevel (visible es) ↔ e ∈ visible es :=
    (sortLevel_perm _).mem_iff
  cases hplace : ((sortLevel (visible es)).map block).mapM Block.place with
  | error f' =>
    rw [hlayout, hplace] at h
    cases h
    obtain ⟨b, hb, hfail⟩ := exists_mem_of_mapM_eq_error hplace
    obtain ⟨e, he, rfl⟩ := List.mem_map.1 hb
    exact ⟨e, hmem.1 he, place_block_eq_error hfail⟩
  | ok ps =>
    have hdeclarable : ∀ e ∈ visible es, e.IsDeclarable := by
      intro e he
      obtain ⟨p, -, hp⟩ := exists_mem_of_forall₂ (mapM_eq_ok_iff.1 hplace).flip
        (List.mem_map_of_mem (hmem.2 he))
      exact isDeclarable_of_place_block hp
    obtain ⟨ds, hds⟩ := layout_isOk_iff.2 hdeclarable
    rw [h] at hds
    cases hds

theorem declareRegister_eq_error {r : Register} {f : Failure} (h : declareRegister r = .error f) :
    (Element.register r).IsObstacle ∧ f = { cause := .tooComplex r.name } := by
  unfold declareRegister at h
  cases hd : r.dim with
  | none =>
    simp only [hd] at h
    cases h
  | some d =>
    simp only [hd] at h
    split at h
    · cases h
    · rename_i hwhole
      split at h
      · rename_i hrefused
        cases h
        refine ⟨⟨d, hd, Bool.eq_false_iff.2 hwhole, ?_⟩, rfl⟩
        simpa using hrefused
      · cases h

theorem fillCluster_eq_error {c : Cluster} {es : List Element} {members : List Decl} {f : Failure}
    (hmembers : layout es = .ok members) (h : fillCluster c members = .error f) :
    (Element.cluster c es).IsObstacle ∧ f = { cause := .tooComplex c.name } := by
  unfold fillCluster at h
  cases hd : c.dim with
  | none =>
    simp only [hd] at h
    cases h
  | some d =>
    simp only [hd] at h
    split at h
    · rename_i hstride
      cases h
      rw [lastFin_of_layout hmembers] at hstride
      exact ⟨⟨d, hd, hstride⟩, rfl⟩
    · cases h

/-- When an element of a level cannot be declared there is an obstacle in the level, and the failure
names it. -/
theorem exists_obstacle_of_declare {e : Element} : ∀ {es : List Element} {f : Failure},
    e ∈ visible es → declare e = .error f →
      ∃ o, VisibleIn es o ∧ o.IsObstacle ∧ f = { cause := .tooComplex o.name } := by
  induction e using tree_induction with
  | register r =>
    intro es f hmem h
    rw [declare] at h
    exact ⟨_, .here hmem, declareRegister_eq_error h⟩
  | cluster c fs ih =>
    intro es f hmem h
    have hassemble : assemble (blocks fs) = layout fs := rfl
    rw [declare, hassemble] at h
    cases hmembers : layout fs with
    | error f' =>
      rw [hmembers] at h
      cases h
      obtain ⟨e, he, hdeclare⟩ := exists_declare_eq_error hmembers
      obtain ⟨o, hin, ho⟩ := ih e (List.mem_of_mem_filter he) he hdeclare
      exact ⟨o, .inside hmem hin, ho⟩
    | ok members =>
      rw [hmembers] at h
      cases hfilled : fillCluster c members with
      | error f' =>
        simp only [bind, Except.bind, hfilled] at h
        cases h
        exact ⟨_, .here hmem, fillCluster_eq_error hmembers hfilled⟩
      | ok filled =>
        simp only [bind, Except.bind, hfilled] at h
        cases h

end Layout

open Element in
/-- **When a layout fails.** A level cannot be laid out exactly when there is an obstacle among what
is visible of it, clusters included, and then the failure says of an obstacle that it is too
complex. No other failure occurs. -/
theorem layout_fails (es : List Element) :
    ((∃ f, layout es = .error f) ↔ ∃ o, VisibleIn es o ∧ o.IsObstacle) ∧
      ∀ f, layout es = .error f →
        ∃ o, VisibleIn es o ∧ o.IsObstacle ∧ f = { cause := .tooComplex o.name } := by
  have hnamed : ∀ f, layout es = .error f →
      ∃ o, VisibleIn es o ∧ o.IsObstacle ∧ f = { cause := .tooComplex o.name } := by
    intro f h
    obtain ⟨e, he, hdeclare⟩ := Layout.exists_declare_eq_error h
    exact Layout.exists_obstacle_of_declare he hdeclare
  refine ⟨⟨?_, ?_⟩, hnamed⟩
  · rintro ⟨f, h⟩
    obtain ⟨o, hin, ho, -⟩ := hnamed f h
    exact ⟨o, hin, ho⟩
  · rintro ⟨o, hin, ho⟩
    cases h : layout es with
    | error f => exact ⟨f, rfl⟩
    | ok ds => exact absurd ho (hin.not_isObstacle (layout_isOk_iff.1 ⟨ds, h⟩))

end RegisterMap
