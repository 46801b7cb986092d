import Mathlib.Data.List.Permutation
import RegisterMap.Proofs.Layout.Arrangement

/-!
# Leaves

A layout declares every element that is not hidden once and at its own offset: `layout_leaves`. The
leaves of declarations are what is left of them when unions and structures are looked through and
gaps left out; `Element.LeavesAll` says which leaves elements have. Within a level the arrangement
keeps the leaves in layout order (`leavesAll_of_arranged`), so that only the sort permutes them.
-/

namespace RegisterMap

namespace Decl

mutual

/-- The registers, array elements and clusters that a declaration holds. -/
def leaves : Decl → List Decl
  | register r o => [register r o]
  | element r i o => [element r i o]
  | cluster c o s ms => [cluster c o s ms]
  | union _ _ ms => leavesAll ms
  | struct _ _ ms => leavesAll ms
  | reserved _ _ => []

/-- The registers, array elements and clusters that declarations hold. -/
def leavesAll : List Decl → List Decl
  | [] => []
  | d :: ds => d.leaves ++ leavesAll ds

end

theorem leavesAll_eq_flatMap (ds : List Decl) : leavesAll ds = ds.flatMap leaves := by
  induction ds with
  | nil => rfl
  | cons d ds ih => rw [leavesAll, ih, List.flatMap_cons]

theorem leavesAll_append (ds es : List Decl) :
    leavesAll (ds ++ es) = leavesAll ds ++ leavesAll es := by
  simp only [leavesAll_eq_flatMap, List.flatMap_append]

theorem leavesAll_flatMap {α : Type} (f : α → List Decl) (as : List α) :
    leavesAll (as.flatMap f) = as.flatMap fun a => leavesAll (f a) := by
  simp only [leavesAll_eq_flatMap, List.flatMap_assoc]

theorem leavesAll_map {α : Type} (f : α → Decl) (as : List α) :
    leavesAll (as.map f) = as.flatMap fun a => (f a).leaves := by
  rw [leavesAll_eq_flatMap, List.flatMap_map]

@[simp] theorem leavesAll_gap (first last : Nat) : leavesAll (gap first last) = [] := by
  unfold gap
  split <;> rfl

end Decl

namespace Element

mutual

/-- The leaves that an element is declared as: one for a register or an array that is one member,
one for each element of another array, and one for a cluster, whose members hold, in any order, the
leaves of the elements in it. -/
inductive Leaves : Element → List Decl → Prop
  | register {r : Register} (whole : r.dim = none ∨ r.isDeclaredAsArray = true) :
      Leaves (.register r) [.register r r.offset]
  | array {r : Register} {d : Dim} (dim_eq : r.dim = some d)
      (apart : r.isDeclaredAsArray = false) :
      Leaves (.register r)
        ((List.range d.count).map fun i => .element r i (r.offset + i * d.stride))
  | cluster {c : Cluster} {es : List Element} {members ls : List Decl}
      (children : LeavesAll es ls) (members_perm : (Decl.leavesAll members).Perm ls) :
      Leaves (.cluster c es) [.cluster c c.offset (totalSize (.cluster c es)) members]

/-- The leaves of elements, those of hidden ones left out. -/
inductive LeavesAll : List Element → List Decl → Prop
  | nil : LeavesAll [] []
  | hidden {e : Element} {es : List Element} {ls : List Decl} (isHidden : e.flags.hidden = true)
      (tail : LeavesAll es ls) : LeavesAll (e :: es) ls
  | visible {e : Element} {es : List Element} {here ls : List Decl}
      (isVisible : e.flags.hidden = false) (head : Leaves e here) (tail : LeavesAll es ls) :
      LeavesAll (e :: es) (here ++ ls)

end

end Element

namespace Layout

/-! ## Arrangements -/

/-- The block has the same leaves alone and as a member of a union. -/
def Placed.Even (p : Placed) : Prop :=
  Decl.leavesAll p.content.shared = Decl.leavesAll p.content.alone

theorem leaves_padded (first last : Nat) (p : Placed) :
    (p.padded first last).leaves = Decl.leavesAll p.content.alone := by
  simp only [Placed.padded, Decl.leaves, Decl.leavesAll_append, Decl.leavesAll_gap,
    List.nil_append, List.append_nil]

theorem leavesAll_shared {qs : List Placed} (h : ∀ q ∈ qs, q.Even) :
    Decl.leavesAll (qs.flatMap (·.content.shared)) =
      qs.flatMap fun q => Decl.leavesAll q.content.alone := by
  rw [Decl.leavesAll_flatMap]
  exact List.flatMap_congr h

/-- A window that becomes a union has the leaves of its members. -/
theorem leavesAll_window (first last offset size : Nat) (members ds : List Decl) :
    Decl.leavesAll (Decl.gap first last ++ [.union offset size members] ++ ds) =
      Decl.leavesAll members ++ Decl.leavesAll ds := by
  simp only [Decl.leavesAll_append, Decl.leavesAll_gap, List.nil_append, Decl.leavesAll,
    Decl.leaves, List.append_nil]

/-- The leaves of an arrangement are those of its blocks, in order. -/
theorem leavesAll_of_arranged {start : Nat} {ps : List Placed} {ds : List Decl} {reached : Nat}
    (h : Arranged start ps ds reached) (heven : ∀ p ∈ ps, p.Even) :
    Decl.leavesAll ds = ps.flatMap fun p => Decl.leavesAll p.content.alone := by
  induction h with
  | nil => rfl
  | alone hs hw _ ih =>
    have hrest := ih (forall_mem_rest hw heven)
    obtain ⟨rfl, -⟩ := eq_of_window hw
    rw [Decl.leavesAll_append, Decl.leavesAll_append, Decl.leavesAll_gap, hrest]
    rfl
  | full hs hw _ _ _ ih =>
    have hrest := ih (forall_mem_rest hw heven)
    have hshared := leavesAll_shared (forall_mem_window hw heven)
    obtain ⟨rfl, -⟩ := eq_of_window hw
    rw [leavesAll_window, hshared, hrest, ← List.cons_append, List.flatMap_append]
  | @covered _ p _ ws ps' _ _ _ _ _ _ hs hw _ _ _ _ ihWithin ih =>
    have hrest := ih (forall_mem_rest hw heven)
    have hwindow := forall_mem_window hw heven
    rw [← List.cons_append, List.forall_mem_append] at hwindow
    have hshared := leavesAll_shared hwindow.1
    have hinner := ihWithin hwindow.2
    obtain ⟨rfl, -⟩ := eq_of_window hw
    rw [leavesAll_window, Decl.leavesAll_append, hshared, hrest]
    simp only [Decl.leavesAll, Decl.leaves, Decl.leavesAll_append, hinner, Decl.leavesAll_gap,
      List.append_nil]
    rw [← List.cons_append, ← List.cons_append, List.flatMap_append, List.flatMap_append]
  | apart hs hw _ ih =>
    have hrest := ih (forall_mem_rest hw heven)
    obtain ⟨rfl, -⟩ := eq_of_window hw
    simp only [leavesAll_window, Decl.leavesAll_map, leaves_padded, hrest]
    rw [← List.cons_append, List.flatMap_append]

/-! ## What an element declares -/

theorem leavesAll_elements (r : Register) (d : Dim) :
    Decl.leavesAll (elements r d) =
      (List.range d.count).map fun i => .element r i (r.offset + i * d.stride) := by
  rw [elements, Decl.leavesAll_flatMap, List.map_eq_flatMap]
  refine List.flatMap_congr fun i _ => ?_
  rw [Decl.leavesAll, Decl.leavesAll_gap]
  rfl

theorem leaves_of_declareRegister {r : Register} {c : Content} (h : declareRegister r = .ok c) :
    Element.Leaves (.register r) (Decl.leavesAll c.alone) ∧
      Decl.leavesAll c.shared = Decl.leavesAll c.alone := by
  rcases declareRegister_eq_ok_iff.1 h with ⟨hwhole, rfl⟩ | ⟨d, hd, hwhole, -, -, rfl⟩
  · exact ⟨.register hwhole, rfl⟩
  · refine ⟨?_, by simp [Decl.leavesAll, Decl.leaves]⟩
    rw [leavesAll_elements]
    exact .array hd hwhole

theorem leavesAll_of_fillCluster {c : Cluster} {members filled : List Decl}
    (h : fillCluster c members = .ok filled) :
    Decl.leavesAll filled = Decl.leavesAll members := by
  unfold fillCluster at h
  split at h
  · cases h
    rfl
  · split at h
    · cases h
    · cases h
      rw [Decl.leavesAll_append, Decl.leavesAll_gap, List.append_nil]

end Layout

/-! ## Levels -/

namespace Element

/-- The order of the elements only moves their leaves. -/
theorem LeavesAll.perm {es fs : List Element} {ls : List Decl} (h : LeavesAll es ls)
    (hp : es.Perm fs) : ∃ ls', LeavesAll fs ls' ∧ ls.Perm ls' := by
  induction hp generalizing ls with
  | nil => exact ⟨ls, h, .refl _⟩
  | cons e _ ih =>
    cases h with
    | hidden he tail =>
      obtain ⟨ls', h', hp'⟩ := ih tail
      exact ⟨ls', .hidden he h', hp'⟩
    | visible he head tail =>
      obtain ⟨ls', h', hp'⟩ := ih tail
      exact ⟨_, .visible he head h', hp'.append_left _⟩
  | swap e f es =>
    cases h with
    | hidden hf tail =>
      cases tail with
      | hidden he tail => exact ⟨_, .hidden he (.hidden hf tail), .refl _⟩
      | visible he head tail => exact ⟨_, .visible he head (.hidden hf tail), .refl _⟩
    | visible hf headf tail =>
      cases tail with
      | hidden he tail => exact ⟨_, .hidden he (.visible hf headf tail), .refl _⟩
      | visible he heade tail =>
        exact ⟨_, .visible he heade (.visible hf headf tail), List.perm_append_comm_assoc _ _ _⟩
  | trans _ _ ih₁ ih₂ =>
    obtain ⟨ls₁, h₁, hp₁⟩ := ih₁ h
    obtain ⟨ls₂, h₂, hp₂⟩ := ih₂ h₁
    exact ⟨ls₂, h₂, hp₁.trans hp₂⟩

/-- Hidden elements have no leaves. -/
theorem LeavesAll.of_visible {es : List Element} {ls : List Decl}
    (h : LeavesAll (Element.visible es) ls) : LeavesAll es ls := by
  induction es generalizing ls with
  | nil => exact h
  | cons e es ih =>
    cases he : e.flags.hidden with
    | true => exact .hidden he (ih (by simpa [Element.visible, he] using h))
    | false =>
      have hvisible : Element.visible (e :: es) = e :: Element.visible es := by
        simp [Element.visible, he]
      rw [hvisible] at h
      cases h with
      | hidden _ tail => exact .hidden ‹_› (ih tail)
      | visible _ head tail => exact .visible he head (ih tail)

/-- The leaves of an element that is not hidden are among those of its list. -/
theorem LeavesAll.exists_of_mem {es : List Element} {ls : List Decl}
    (h : LeavesAll es ls) {e : Element} (he : e ∈ es) (hvisible : e.flags.hidden = false) :
    ∃ here, e.Leaves here ∧ ∀ l ∈ here, l ∈ ls := by
  induction es generalizing ls with
  | nil => cases he
  | cons f es ih =>
    cases h with
    | hidden hhidden tail =>
      rcases List.mem_cons.1 he with rfl | he
      · rw [hhidden] at hvisible
        cases hvisible
      · exact ih tail he
    | visible hf head tail =>
      rcases List.mem_cons.1 he with rfl | he
      · exact ⟨_, head, fun l hl => List.mem_append_left _ hl⟩
      · obtain ⟨here, hhere, hsub⟩ := ih tail he
        exact ⟨here, hhere, fun l hl => List.mem_append_right _ (hsub l hl)⟩

/-- A leaf of a list is one of an element that is not hidden. -/
theorem LeavesAll.exists_of_leaf {es : List Element} {ls : List Decl} (h : LeavesAll es ls)
    {l : Decl} (hl : l ∈ ls) :
    ∃ e ∈ es, e.flags.hidden = false ∧ ∃ here, e.Leaves here ∧ l ∈ here := by
  induction es generalizing ls with
  | nil =>
    cases h
    cases hl
  | cons e es ih =>
    cases h with
    | hidden _ tail =>
      obtain ⟨f, hf, hleaf⟩ := ih tail hl
      exact ⟨f, List.mem_cons_of_mem _ hf, hleaf⟩
    | visible hvisible head tail =>
      rcases List.mem_append.1 hl with hl | hl
      · exact ⟨e, List.mem_cons_self, hvisible, _, head, hl⟩
      · obtain ⟨f, hf, hleaf⟩ := ih tail hl
        exact ⟨f, List.mem_cons_of_mem _ hf, hleaf⟩

end Element

namespace Layout

/-- Placed elements have the leaves of their blocks, if each element by itself has. -/
theorem leavesAll_of_isPlaced {es : List Element} {ps : List Placed}
    (h : List.Forall₂ IsPlaced es ps) (hvisible : ∀ e ∈ es, e.flags.hidden = false)
    (hleaves : ∀ e ∈ es, ∀ c, declare e = .ok c → e.Leaves (Decl.leavesAll c.alone)) :
    Element.LeavesAll es (ps.flatMap fun p => Decl.leavesAll p.content.alone) := by
  induction h with
  | nil => exact .nil
  | cons he _ ih =>
    rw [List.forall_mem_cons] at hvisible hleaves
    exact .visible hvisible.1 (hleaves.1 _ he.declare_eq) (ih hvisible.2 hleaves.2)

/-- A level has the leaves of its elements, if each of them is declared with its own. -/
theorem leavesAll_of_layout {es : List Element} {ds : List Decl} (h : layout es = .ok ds)
    (hes : ∀ e ∈ es, ∀ c, declare e = .ok c → e.Leaves (Decl.leavesAll c.alone) ∧
      Decl.leavesAll c.shared = Decl.leavesAll c.alone) :
    ∃ ls, Element.LeavesAll es ls ∧ (Decl.leavesAll ds).Perm ls := by
  obtain ⟨ps, reached, hplaced, -, harr⟩ := arranged_of_layout h
  have hsorted : ∀ e ∈ Element.sortLevel (Element.visible es), e ∈ Element.visible es :=
    fun e he => (Element.sortLevel_perm _).mem_iff.1 he
  have hmem : ∀ e ∈ Element.sortLevel (Element.visible es), e ∈ es :=
    fun e he => List.mem_of_mem_filter (hsorted e he)
  have heven : ∀ p ∈ ps, p.Even := fun p hp => by
    obtain ⟨e, he, hep⟩ := exists_isPlaced_of_mem hplaced hp
    exact (hes e (hmem e he) _ hep.declare_eq).2
  have hleaves := leavesAll_of_isPlaced hplaced
    (fun e he => Element.not_hidden_of_mem_visible (hsorted e he))
    (fun e he c hc => (hes e (hmem e he) c hc).1)
  rw [← leavesAll_of_arranged harr heven] at hleaves
  obtain ⟨ls, hls, hperm⟩ := hleaves.perm (Element.sortLevel_perm _)
  exact ⟨ls, hls.of_visible, hperm⟩

/-- An element is declared with its own leaves, alone and as a member of a union. -/
theorem leaves_of_declare (e : Element) : ∀ c, declare e = .ok c →
    e.Leaves (Decl.leavesAll c.alone) ∧ Decl.leavesAll c.shared = Decl.leavesAll c.alone := by
  induction e using Element.tree_induction with
  | register r =>
    intro c h
    rw [declare] at h
    exact leaves_of_declareRegister h
  | cluster head es ih =>
    intro c h
    rw [declare] at h
    obtain ⟨members, hmembers, h⟩ := bind_eq_ok.1 h
    obtain ⟨filled, hfilled, h⟩ := bind_eq_ok.1 h
    cases h
    obtain ⟨ls, hls, hperm⟩ := leavesAll_of_layout hmembers ih
    refine ⟨.cluster hls ?_, rfl⟩
    rwa [leavesAll_of_fillCluster hfilled]

end Layout

/-- **Nothing lost, repeated or moved.** The leaves of a layout are, in some order, those of the
elements that are not hidden, at every depth of clusters. -/
theorem layout_leaves {es : List Element} {ds : List Decl} (h : layout es = .ok ds) :
    ∃ ls, Element.LeavesAll es ls ∧ (Decl.leavesAll ds).Perm ls :=
  Layout.leavesAll_of_layout h fun e _ => Layout.leaves_of_declare e

section Example

private def channel : Element :=
  .cluster { name := "CH", offset := 16, dim := some (.counted 16 2) }
    [.register (.plain "VAL" 4 16), .register (.plain "CTRL" 0 32),
     .register { Register.plain "KEY" 8 32 with flags := { hidden := true } }]

private def pairs : Register := .plain "T%sX" 0 16 (some (.counted 4 2))

/-- Channels with a hidden register in them, behind two registers that overlap. -/
private def channels : List Element := [channel, .register (.plain "E" 0 32), .register pairs]

private def channelsDecls : List Decl :=
  [.union 0 8 [.struct 0 8 [.element pairs 0 0, .reserved 2 2, .element pairs 1 4, .reserved 6 2],
     .struct 0 8 [.register (.plain "E" 0 32) 0, .reserved 4 4]],
   .reserved 8 8,
   .cluster { name := "CH", offset := 16, dim := some (.counted 16 2) } 16 32
     [.register (.plain "CTRL" 0 32) 0, .register (.plain "VAL" 4 16) 4, .reserved 6 10]]

private theorem layout_channels : layout channels = .ok channelsDecls := by
  have hpairs : Layout.declareRegister pairs =
      .ok ⟨Layout.elements pairs (.counted 4 2),
        [.struct 0 8 (Layout.elements pairs (.counted 4 2))]⟩ :=
    Layout.declareRegister_eq_ok_iff.2 (.inr ⟨.counted 4 2, rfl, by cbv, by cbv, by decide, rfl⟩)
  show Layout.assemble (Layout.blocks [channel, .register (.plain "E" 0 32)] ++
    [⟨0, 8, "T%sX", Layout.declareRegister pairs⟩]) = _
  rw [hpairs]
  cbv

theorem layout_leaves_channels :
    layout channels = .ok channelsDecls ∧
      ∃ ls, Element.LeavesAll channels ls ∧ (Decl.leavesAll channelsDecls).Perm ls :=
  ⟨layout_channels, layout_leaves layout_channels⟩

end Example

end RegisterMap
