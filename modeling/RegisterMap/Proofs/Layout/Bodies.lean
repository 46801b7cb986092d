import RegisterMap.Proofs.Layout.Declarable
import RegisterMap.Proofs.Layout.Leaves

/-!
# Bodies of clusters

How far the members of a cluster reach: those of an array fill each element of it up to the next
one, those of any other cluster end with the last that is not hidden, which need not be where the
cluster ends. `layout_bodies` says for which elements every cluster of a layout is filled by its
members.
-/

namespace RegisterMap

namespace Decl

/-- The property holds of all clusters in the declaration, at every depth, with their sizes and
members. -/
inductive EachCluster (P : Cluster → (size : Nat) → (members : List Decl) → Prop) : Decl → Prop
  | register (r : Register) (offset : Nat) : EachCluster P (.register r offset)
  | element (r : Register) (index offset : Nat) : EachCluster P (.element r index offset)
  | cluster {c : Cluster} {offset size : Nat} {ds : List Decl} (here : P c size ds)
      (members : ∀ d ∈ ds, EachCluster P d) : EachCluster P (.cluster c offset size ds)
  | union {offset size : Nat} {ds : List Decl} (members : ∀ d ∈ ds, EachCluster P d) :
      EachCluster P (.union offset size ds)
  | struct {offset size : Nat} {ds : List Decl} (members : ∀ d ∈ ds, EachCluster P d) :
      EachCluster P (.struct offset size ds)
  | reserved (offset size : Nat) : EachCluster P (.reserved offset size)

section EachCluster

variable {P : Cluster → Nat → List Decl → Prop} {offset size : Nat} {ds : List Decl}

theorem eachCluster_cluster_iff {c : Cluster} :
    EachCluster P (.cluster c offset size ds) ↔ P c size ds ∧ ∀ d ∈ ds, EachCluster P d := by
  constructor
  · rintro (_ | _ | ⟨hhere, hmembers⟩)
    exact ⟨hhere, hmembers⟩
  · exact fun ⟨hhere, hmembers⟩ => .cluster hhere hmembers

theorem eachCluster_union_iff :
    EachCluster P (.union offset size ds) ↔ ∀ d ∈ ds, EachCluster P d := by
  constructor
  · rintro (_ | _ | _ | hmembers)
    exact hmembers
  · exact .union

theorem eachCluster_struct_iff :
    EachCluster P (.struct offset size ds) ↔ ∀ d ∈ ds, EachCluster P d := by
  constructor
  · rintro (_ | _ | _ | _ | hmembers)
    exact hmembers
  · exact .struct

mutual

/-- Unions and structures have the clusters of their leaves. -/
theorem eachCluster_iff_leaves : (d : Decl) →
    (EachCluster P d ↔ ∀ l ∈ d.leaves, EachCluster P l)
  | .register _ _ | .element _ _ _ | .cluster _ _ _ _ => List.forall_mem_singleton.symm
  | .union _ _ ds => eachCluster_union_iff.trans (forall_eachCluster_iff_leavesAll ds)
  | .struct _ _ ds => eachCluster_struct_iff.trans (forall_eachCluster_iff_leavesAll ds)
  | .reserved offset size => ⟨fun _ => List.forall_mem_nil _, fun _ => .reserved offset size⟩

theorem forall_eachCluster_iff_leavesAll : (ds : List Decl) →
    ((∀ d ∈ ds, EachCluster P d) ↔ ∀ l ∈ leavesAll ds, EachCluster P l)
  | [] => Iff.rfl
  | d :: ds => by
    rw [leavesAll, List.forall_mem_cons, List.forall_mem_append, eachCluster_iff_leaves d,
      forall_eachCluster_iff_leavesAll ds]

end

end EachCluster

/-- The members of the cluster follow each other from 0 on, through one element of an array, and
in any other cluster up to the end of it at most. -/
def FitsCluster (c : Cluster) (size : Nat) (members : List Decl) : Prop :=
  match c.dim with
  | some d => Tiles 0 members d.stride ∧ size = d.stride * d.count
  | none => ∃ last ≤ size, Tiles 0 members last

/-- The members of the cluster follow each other from 0 to the end of one element of it. -/
def FillsCluster (c : Cluster) (size : Nat) (members : List Decl) : Prop :=
  match c.dim with
  | some d => Tiles 0 members d.stride ∧ size = d.stride * d.count
  | none => Tiles 0 members size

/-- Declarations that follow each other have one end. -/
theorem Tiles.eq {first last last' : Nat} {ds : List Decl} (h : Tiles first ds last)
    (h' : Tiles first ds last') : last = last' := by
  induction ds generalizing first with
  | nil => exact h.symm.trans h'
  | cons d ds ih => exact ih h.2 h'.2

end Decl

namespace Element

mutual

/-- In the element, no hidden member of a cluster that is no array ends behind all members that are
not hidden, at any depth where something is visible. -/
def coversHidden : Element → Bool
  | register _ => true
  | cluster c es => (c.dim.isSome || extent es ≤ extent (visible es)) && coversHiddenAll es

/-- The same of those of the elements that are not hidden. -/
def coversHiddenAll : List Element → Bool
  | [] => true
  | e :: es => (e.flags.hidden || e.coversHidden) && coversHiddenAll es

end

theorem coversHiddenAll_iff {es : List Element} :
    coversHiddenAll es = true ↔ ∀ e ∈ visible es, e.coversHidden = true := by
  induction es with
  | nil => simp [coversHiddenAll, visible]
  | cons e es ih =>
    simp only [mem_visible_iff] at ih ⊢
    simp only [coversHiddenAll, Bool.and_eq_true, Bool.or_eq_true, ih, List.mem_cons]
    grind

theorem extent_visible_le (es : List Element) : extent (visible es) ≤ extent es :=
  extent_le_iff.2 fun _ he => fin_le_extent (mem_visible_iff.1 he).1

end Element

namespace Layout

open Decl Element

variable {P : Cluster → Nat → List Decl → Prop} {Q : Element → Prop}

theorem forall_eachCluster_of_isPlaced {es : List Element} {ps : List Placed}
    (hplaced : List.Forall₂ IsPlaced es ps) (hes : ∀ e ∈ es, ∀ content, declare e = .ok content →
      ((∀ d ∈ content.alone, EachCluster P d) ↔ Q e)) :
    (∀ p ∈ ps, ∀ d ∈ p.content.alone, EachCluster P d) ↔ ∀ e ∈ es, Q e := by
  induction hplaced with
  | nil => exact iff_of_true (List.forall_mem_nil _) (List.forall_mem_nil _)
  | cons hep _ ih =>
    obtain ⟨he, hrest⟩ := List.forall_mem_cons.1 hes
    rw [List.forall_mem_cons, List.forall_mem_cons, he _ hep.declare_eq, ih hrest]

/-- A layout has the clusters that its elements declare. -/
theorem forall_eachCluster_of_layout {es : List Element} {ds : List Decl} (h : layout es = .ok ds)
    (hes : ∀ e ∈ visible es, ∀ content, declare e = .ok content →
      ((∀ d ∈ content.alone, EachCluster P d) ↔ Q e)) :
    (∀ d ∈ ds, EachCluster P d) ↔ ∀ e ∈ visible es, Q e := by
  obtain ⟨ps, reached, hplaced, -, harr⟩ := arranged_of_layout h
  have hsorted {e : Element} : e ∈ sortLevel (visible es) ↔ e ∈ visible es :=
    (sortLevel_perm _).mem_iff
  have heven : ∀ p ∈ ps, p.Even := by
    intro p hp
    obtain ⟨e, -, hep⟩ := exists_isPlaced_of_mem hplaced hp
    exact (leaves_of_declare e _ hep.declare_eq).2
  have hblocks := forall_eachCluster_of_isPlaced hplaced fun e he => hes e (hsorted.1 he)
  calc (∀ d ∈ ds, EachCluster P d)
    _ ↔ ∀ l ∈ ps.flatMap fun p => leavesAll p.content.alone, EachCluster P l := by
        rw [forall_eachCluster_iff_leavesAll, leavesAll_of_arranged harr heven]
    _ ↔ ∀ p ∈ ps, ∀ d ∈ p.content.alone, EachCluster P d := by
        rw [List.forall_mem_flatMap]
        exact forall₂_congr fun p _ => (forall_eachCluster_iff_leavesAll _).symm
    _ ↔ ∀ e ∈ sortLevel (visible es), Q e := hblocks
    _ ↔ ∀ e ∈ visible es, Q e := forall_congr' fun e => imp_congr_left hsorted

theorem eachCluster_of_mem_elements {r : Register} {dim : Dim} {d : Decl}
    (h : d ∈ elements r dim) : EachCluster P d := by
  obtain ⟨i, -, h⟩ := List.mem_flatMap.1 h
  rcases List.mem_cons.1 h with rfl | h
  · exact .element _ _ _
  · unfold gap at h
    split at h
    · cases List.mem_singleton.1 h
      exact .reserved _ _
    · cases h

/-- What is known of the bodies of single clusters, in terms of their elements, is known of all
clusters that an element declares. -/
theorem eachCluster_of_declare (hregister : ∀ r, Q (.register r))
    (hcluster : ∀ c es members filled, layout es = .ok members →
      fillCluster c members = .ok filled →
        (Q (.cluster c es) ↔
          P c (Element.totalSize (.cluster c es)) filled ∧ ∀ e ∈ visible es, Q e))
    (e : Element) : ∀ content, declare e = .ok content →
      ((∀ d ∈ content.alone, EachCluster P d) ↔ Q e) := by
  induction e using Element.tree_induction with
  | register r =>
    intro content h
    rw [declare] at h
    refine iff_of_true ?_ (hregister r)
    rcases declareRegister_eq_ok_iff.1 h with ⟨-, rfl⟩ | ⟨d, -, -, -, -, rfl⟩
    · exact List.forall_mem_singleton.2 (.register r r.offset)
    · exact fun d => eachCluster_of_mem_elements
  | cluster c es ih =>
    intro content h
    rw [declare] at h
    obtain ⟨members, hmembers, h⟩ := bind_eq_ok.1 h
    obtain ⟨filled, hfilled, h⟩ := bind_eq_ok.1 h
    cases h
    have hlevel := forall_eachCluster_of_layout hmembers fun e he => ih e (mem_visible_iff.1 he).1
    have hleaves := leavesAll_of_fillCluster hfilled
    rw [List.forall_mem_singleton, eachCluster_cluster_iff, hcluster c es members filled hmembers
      hfilled, ← hlevel, forall_eachCluster_iff_leavesAll, hleaves,
      ← forall_eachCluster_iff_leavesAll]

/-! ## Single clusters -/

section Body

variable {c : Cluster} {es : List Element} {members filled : List Decl}

/-- The body of an array fills an element of it, the body of any other cluster ends with what is
visible of it. -/
theorem tiles_body (hmembers : layout es = .ok members)
    (hfilled : fillCluster c members = .ok filled) :
    match c.dim with
    | some d => Tiles 0 filled d.stride
    | none => Tiles 0 filled (extent (visible es)) := by
  have htiles := (layout_proper hmembers).1
  rw [lastFin_of_layout hmembers] at htiles
  unfold fillCluster at hfilled
  cases hd : c.dim with
  | none =>
    rw [hd] at hfilled
    cases hfilled
    exact htiles
  | some d =>
    simp only [hd, lastFin_of_layout hmembers] at hfilled
    split at hfilled
    · cases hfilled
    · rename_i hstride
      cases hfilled
      exact htiles.append (tiles_gap (Nat.not_lt.1 hstride))

theorem fitsCluster_body (hmembers : layout es = .ok members)
    (hfilled : fillCluster c members = .ok filled) :
    FitsCluster c (Element.totalSize (.cluster c es)) filled := by
  have htiles := tiles_body hmembers hfilled
  unfold FitsCluster Element.totalSize
  cases hd : c.dim with
  | none =>
    rw [hd] at htiles
    exact ⟨_, extent_visible_le es, htiles⟩
  | some d =>
    rw [hd] at htiles
    exact ⟨htiles, rfl⟩

theorem fillsCluster_body_iff (hmembers : layout es = .ok members)
    (hfilled : fillCluster c members = .ok filled) :
    FillsCluster c (Element.totalSize (.cluster c es)) filled ↔
      (c.dim.isSome || extent es ≤ extent (visible es)) = true := by
  have htiles := tiles_body hmembers hfilled
  unfold FillsCluster Element.totalSize
  cases hd : c.dim with
  | none =>
    rw [hd] at htiles
    simp only [Option.isSome_none, Bool.false_or, decide_eq_true_iff]
    constructor
    · intro hsize
      exact Nat.le_of_eq (hsize.eq htiles)
    · intro hle
      rwa [Nat.le_antisymm (extent_visible_le es) hle] at htiles
  | some d =>
    rw [hd] at htiles
    exact iff_of_true ⟨htiles, rfl⟩ rfl

end Body

end Layout

open Layout in
/-- **Bodies.** At every depth of a layout, the members of a cluster follow each other from 0 on,
in an array to the end of one element and in any other cluster no further than its end. All clusters
are filled by their members exactly when hidden elements of clusters that are no arrays end no
later than visible ones. -/
theorem layout_bodies {es : List Element} {ds : List Decl} (h : layout es = .ok ds) :
    (∀ d ∈ ds, d.EachCluster Decl.FitsCluster) ∧
      ((∀ d ∈ ds, d.EachCluster Decl.FillsCluster) ↔ Element.coversHiddenAll es = true) := by
  constructor
  · refine (forall_eachCluster_of_layout (Q := fun _ => True) h fun e _ =>
      eachCluster_of_declare (Q := fun _ => True) (fun _ => trivial) ?_ e).2 fun _ _ => trivial
    intro c es members filled hmembers hfilled
    exact iff_of_true trivial ⟨fitsCluster_body hmembers hfilled, fun _ _ => trivial⟩
  · rw [Element.coversHiddenAll_iff]
    refine forall_eachCluster_of_layout (Q := fun e => e.coversHidden = true) h fun e _ =>
      eachCluster_of_declare (Q := fun e => e.coversHidden = true) (fun _ => rfl) ?_ e
    intro c es members filled hmembers hfilled
    rw [Element.coversHidden, Bool.and_eq_true, fillsCluster_body_iff hmembers hfilled,
      Element.coversHiddenAll_iff]

section Example

private def secret (offset : Nat) : Element :=
  .register { Register.plain "KEY" offset 32 with flags := { hidden := true } }

/-- An array of clusters that end with a hidden register, and a cluster with one inside. -/
private def guarded : List Element :=
  [.cluster { name := "CH", dim := some (.counted 16 2) } [.register (.plain "VAL" 0 32), secret 8],
   .cluster { name := "LOCK", offset := 32 }
     [.register (.plain "CTRL" 0 16), secret 4, .register (.plain "STAT" 8 16)]]

private def guardedDecls : List Decl :=
  [.cluster { name := "CH", dim := some (.counted 16 2) } 0 32
     [.register (.plain "VAL" 0 32) 0, .reserved 4 12],
   .cluster { name := "LOCK", offset := 32 } 32 10
     [.register (.plain "CTRL" 0 16) 0, .reserved 2 6, .register (.plain "STAT" 8 16) 8]]

theorem layout_bodies_guarded :
    layout guarded = .ok guardedDecls ∧ Element.coversHiddenAll guarded = true ∧
      ∀ d ∈ guardedDecls, d.EachCluster Decl.FillsCluster := by
  have h : layout guarded = .ok guardedDecls := by cbv
  have hcovers : Element.coversHiddenAll guarded = true := by decide +kernel
  exact ⟨h, hcovers, (layout_bodies h).2.2 hcovers⟩

/-- A cluster that ends with a hidden register, in front of another register. -/
private def unguarded : List Element :=
  [.cluster { name := "LOCK" } [.register (.plain "CTRL" 0 32), secret 4],
   .register (.plain "STAT" 8 32)]

private def unguardedDecls : List Decl :=
  [.cluster { name := "LOCK" } 0 8 [.register (.plain "CTRL" 0 32) 0],
   .register (.plain "STAT" 8 32) 8]

/-- The members of the cluster take 4 of its 8 bytes. -/
theorem layout_bodies_hidden :
    layout unguarded = .ok unguardedDecls ∧
      Decl.Tiles 0 [.register (.plain "CTRL" 0 32) 0] 4 ∧
      ¬∀ d ∈ unguardedDecls, d.EachCluster Decl.FillsCluster := by
  have hbody : Decl.Tiles 0 [.register (.plain "CTRL" 0 32) 0] 4 := ⟨rfl, rfl⟩
  refine ⟨by cbv, hbody, fun h => ?_⟩
  have hcluster := (Decl.eachCluster_cluster_iff.1 (h _ List.mem_cons_self)).1
  have hsize : Decl.Tiles 0 [.register (.plain "CTRL" 0 32) 0] 8 := hcluster
  exact absurd (hbody.eq hsize) (by decide)

end Example

end RegisterMap
