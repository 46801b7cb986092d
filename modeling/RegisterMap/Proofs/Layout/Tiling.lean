import Mathlib.Data.List.Permutation
import RegisterMap.Proofs.Layout.Arrangement

/-!
# Tiling

The declarations of a layout lie one behind the other without gap or overlap: `layout_tiles`. The
same holds inside structures, and the members of a union all span it (`Decl.Exact`). What carries
it is that every element fills its own range, alone and as a member of a union
(`fills_of_declare`), and that each kind of window hands this on (`Arranged.tiles`,
`Arranged.exact`).
-/

namespace RegisterMap

namespace Decl

/-- The declarations follow each other without gap or overlap from one address to another. -/
def Tiles : (first : Nat) → List Decl → (last : Nat) → Prop
  | first, [], last => first = last
  | first, d :: ds, last => d.offset = first ∧ Tiles d.fin ds last

/-- Every member of a union takes the range of the union, and the members of a structure follow
each other through its range, at every depth of unions and structures. -/
inductive Exact : Decl → Prop
  | register (r : Register) (offset : Nat) : Exact (.register r offset)
  | element (r : Register) (index offset : Nat) : Exact (.element r index offset)
  | cluster (c : Cluster) (offset size : Nat) (ds : List Decl) : Exact (.cluster c offset size ds)
  | union {offset size : Nat} {ds : List Decl}
      (spans : ∀ d ∈ ds, d.offset = offset ∧ d.size = size) (exact : ∀ d ∈ ds, Exact d) :
      Exact (.union offset size ds)
  | struct {offset size : Nat} {ds : List Decl} (tiles : Tiles offset ds (offset + size))
      (exact : ∀ d ∈ ds, Exact d) : Exact (.struct offset size ds)
  | reserved (offset size : Nat) : Exact (.reserved offset size)

@[simp] theorem tiles_nil {first last : Nat} : Tiles first [] last ↔ first = last := Iff.rfl

@[simp] theorem tiles_cons {first last : Nat} {d : Decl} {ds : List Decl} :
    Tiles first (d :: ds) last ↔ d.offset = first ∧ Tiles d.fin ds last := Iff.rfl

theorem Tiles.append {first middle last : Nat} {ds es : List Decl} (hd : Tiles first ds middle)
    (he : Tiles middle es last) : Tiles first (ds ++ es) last := by
  induction ds generalizing first with
  | nil =>
    cases hd
    exact he
  | cons d ds ih => exact ⟨hd.1, ih hd.2⟩

theorem tiles_gap {first last : Nat} (h : first ≤ last) : Tiles first (gap first last) last := by
  unfold gap
  split
  · refine ⟨rfl, ?_⟩
    show first + (last - first) = last
    omega
  · show first = last
    omega

theorem exact_of_mem_gap {first last : Nat} {d : Decl} (h : d ∈ gap first last) : d.Exact := by
  unfold gap at h
  split at h
  · cases List.mem_singleton.1 h
    exact .reserved _ _
  · cases h

end Decl

namespace Layout

/-! ## What an element declares -/

/-- The content takes exactly the range of the element it belongs to. -/
structure Content.Fills (c : Content) (offset size : Nat) : Prop where
  tiles : Decl.Tiles offset c.alone (offset + size)
  spans : ∀ d ∈ c.shared, d.offset = offset ∧ d.size = size
  exact_alone : ∀ d ∈ c.alone, d.Exact
  exact_shared : ∀ d ∈ c.shared, d.Exact

/-- One declaration of the right range fills it. -/
theorem Content.fills_single {d : Decl} (hd : d.Exact) :
    Content.Fills ⟨[d], [d]⟩ d.offset d.size where
  tiles := ⟨rfl, rfl⟩
  spans e he := by
    cases List.mem_singleton.1 he
    exact ⟨rfl, rfl⟩
  exact_alone e he := List.mem_singleton.1 he ▸ hd
  exact_shared e he := List.mem_singleton.1 he ▸ hd

theorem tiles_elements {r : Register} {d : Dim} (h : r.elementSize ≤ d.stride) :
    Decl.Tiles r.offset (elements r d) (r.offset + d.stride * d.count) := by
  have key : ∀ n, Decl.Tiles r.offset
      ((List.range n).flatMap fun i =>
        .element r i (r.offset + i * d.stride) ::
          Decl.gap (r.offset + i * d.stride + r.elementSize) (r.offset + i * d.stride + d.stride))
      (r.offset + n * d.stride) := by
    intro n
    induction n with
    | zero => simp
    | succ n ih =>
      rw [List.range_succ, List.flatMap_append, List.flatMap_singleton]
      refine ih.append ⟨rfl, ?_⟩
      rw [Nat.succ_mul, ← Nat.add_assoc]
      exact Decl.tiles_gap (Nat.add_le_add_left h _)
  rw [Nat.mul_comm]
  exact key d.count

theorem exact_of_mem_elements {r : Register} {d : Dim} {e : Decl} (h : e ∈ elements r d) :
    e.Exact := by
  obtain ⟨i, -, h⟩ := List.mem_flatMap.1 h
  rcases List.mem_cons.1 h with rfl | h
  · exact .element _ _ _
  · exact Decl.exact_of_mem_gap h

theorem fills_of_declareRegister {r : Register} {c : Content} (h : declareRegister r = .ok c) :
    c.Fills r.offset r.totalSize := by
  rcases declareRegister_eq_ok_iff.1 h with ⟨-, rfl⟩ | ⟨d, hd, -, -, hsize, rfl⟩
  · exact Content.fills_single (.register r r.offset)
  · have htotal : r.totalSize = d.stride * d.count := by simp [Register.totalSize, hd]
    have htiles := tiles_elements hsize
    rw [← htotal] at htiles
    have hexact := fun e => exact_of_mem_elements (r := r) (d := d) (e := e)
    exact {
      tiles := htiles
      spans := fun e he => by
        cases List.mem_singleton.1 he
        exact ⟨rfl, rfl⟩
      exact_alone := hexact
      exact_shared := fun e he => List.mem_singleton.1 he ▸ .struct htiles hexact }

/-- An element that can be declared fills its range. -/
theorem fills_of_declare {e : Element} {c : Content} (h : declare e = .ok c) :
    c.Fills e.offset e.totalSize := by
  cases e with
  | register r =>
    rw [declare] at h
    exact fills_of_declareRegister h
  | cluster head es =>
    rw [declare] at h
    obtain ⟨members, -, h⟩ := bind_eq_ok.1 h
    obtain ⟨filled, -, h⟩ := bind_eq_ok.1 h
    cases h
    exact Content.fills_single (.cluster head head.offset _ filled)

/-! ## Windows -/

/-- A union is exact when its members take its range and are exact themselves. -/
theorem exact_union {first size : Nat} {members : List Decl}
    (h : ∀ d ∈ members, (d.offset = first ∧ d.size = size) ∧ d.Exact) :
    (Decl.union first size members).Exact :=
  .union (fun d hd => (h d hd).1) fun d hd => (h d hd).2

/-- The block's content takes exactly its range. -/
def Placed.Fills (p : Placed) : Prop := p.content.Fills p.offset p.size

/-- Blocks that take a window as a whole are declared there with members of its range. -/
theorem spans_of_mem_shared {qs : List Placed} {first last : Nat}
    (hfills : ∀ q ∈ qs, q.Fills) (hbounds : ∀ q ∈ qs, first ≤ q.offset ∧ q.fin ≤ last)
    (hsize : ∀ q ∈ qs, q.size = last - first) :
    ∀ d ∈ qs.flatMap (·.content.shared),
      (d.offset = first ∧ d.size = last - first) ∧ d.Exact := by
  intro d hd
  obtain ⟨q, hq, hd⟩ := List.mem_flatMap.1 hd
  obtain ⟨ho, hs⟩ := (hfills q hq).spans d hd
  obtain ⟨hfirst, hfin⟩ := hbounds q hq
  have hfin : q.offset + q.size ≤ last := hfin
  have := hsize q hq
  exact ⟨⟨by omega, by omega⟩, (hfills q hq).exact_shared d hd⟩

/-- A block that is alone in a structure over the window is padded to it. -/
theorem Placed.Fills.exact_padded {p : Placed} (h : p.Fills) {first last : Nat}
    (hfirst : first ≤ p.offset) (hfin : p.fin ≤ last) : (p.padded first last).Exact := by
  have hlast : first + (last - first) = last := by
    have : p.offset + p.size ≤ last := hfin
    omega
  refine .struct ?_ fun d hd => ?_
  · rw [hlast]
    exact ((Decl.tiles_gap hfirst).append h.tiles).append (Decl.tiles_gap hfin)
  · simp only [List.mem_append] at hd
    rcases hd with (hd | hd) | hd
    · exact Decl.exact_of_mem_gap hd
    · exact h.exact_alone d hd
    · exact Decl.exact_of_mem_gap hd

/-! ## Arrangements -/

/-- A window that becomes a union tiles the range from where the one before it ends. -/
theorem tiles_window {start last : Nat} {p : Placed} {ps ws rest : List Placed}
    (hs : start ≤ p.offset) (hw : window p.fin ps = (ws, last, rest)) (members : List Decl) :
    Decl.Tiles start (Decl.gap start p.offset ++ [.union p.offset (last - p.offset) members])
      last := by
  obtain ⟨-, rfl⟩ := eq_of_window hw
  refine (Decl.tiles_gap hs).append ⟨rfl, ?_⟩
  show p.offset + (reach p.fin ws - p.offset) = reach p.fin ws
  have h1 : p.offset ≤ p.fin := Nat.le_add_right _ _
  have h2 := le_reach p.fin ws
  omega

/-- Arranged blocks tile the range from the start to where they reach. -/
theorem Arranged.tiles {start : Nat} {ps : List Placed} {ds : List Decl} {reached : Nat}
    (h : Arranged start ps ds reached) (hfills : ∀ p ∈ ps, p.Fills) :
    Decl.Tiles start ds reached := by
  induction h with
  | nil => rfl
  | alone hs hw _ ih =>
    have hrest := ih (forall_mem_rest hw hfills)
    obtain ⟨-, rfl⟩ := eq_of_window hw
    exact ((Decl.tiles_gap hs).append (hfills _ List.mem_cons_self).tiles).append hrest
  | full hs hw _ _ _ ih => exact (tiles_window hs hw _).append (ih (forall_mem_rest hw hfills))
  | covered hs hw _ _ _ _ _ ih =>
    exact (tiles_window hs hw _).append (ih (forall_mem_rest hw hfills))
  | apart hs hw _ ih => exact (tiles_window hs hw _).append (ih (forall_mem_rest hw hfills))

theorem exact_window {start last : Nat} {here ds : List Decl} (hhere : ∀ d ∈ here, d.Exact)
    (hds : ∀ d ∈ ds, d.Exact) : ∀ d ∈ Decl.gap start last ++ here ++ ds, d.Exact :=
  List.forall_mem_append.2
    ⟨List.forall_mem_append.2 ⟨fun _ hd => Decl.exact_of_mem_gap hd, hhere⟩, hds⟩

/-- A structure over a window is filled by blocks that do not reach behind it. -/
theorem Arranged.exact_struct {first last reached : Nat} {ps : List Placed} {ds : List Decl}
    (h : Arranged first ps ds reached) (hfills : ∀ p ∈ ps, p.Fills) (hfirst : first ≤ last)
    (hfin : ∀ p ∈ ps, p.fin ≤ last) (hexact : ∀ d ∈ ds, d.Exact) :
    (Decl.struct first (last - first) (ds ++ Decl.gap reached last)).Exact := by
  have hreached : reached ≤ last := h.reached_eq ▸ reach_le hfirst hfin
  refine .struct ?_ (List.forall_mem_append.2 ⟨hexact, fun d hd => Decl.exact_of_mem_gap hd⟩)
  rw [Nat.add_sub_cancel' hfirst]
  exact (h.tiles hfills).append (Decl.tiles_gap hreached)

/-- Arranged blocks are exact in their unions and structures. -/
theorem Arranged.exact {start : Nat} {ps : List Placed} {ds : List Decl} {reached : Nat}
    (h : Arranged start ps ds reached) (hps : ps.Pairwise fun p q => p.offset ≤ q.offset)
    (hfills : ∀ p ∈ ps, p.Fills) : ∀ d ∈ ds, d.Exact := by
  induction h with
  | nil =>
    intro d hd
    cases hd
  | alone hs hw _ ih =>
    exact exact_window (hfills _ List.mem_cons_self).exact_alone
      (ih (pairwise_rest hw hps) (forall_mem_rest hw hfills))
  | full hs hw hwhole hall _ ih =>
    have hrest := ih (pairwise_rest hw hps) (forall_mem_rest hw hfills)
    have hmembers := spans_of_mem_shared (forall_mem_window hw hfills) (mem_window_bounds hw hps)
      (List.forall_mem_cons.2 ⟨hwhole, hall⟩)
    exact exact_window (List.forall_mem_singleton.2 (exact_union hmembers)) hrest
  | @covered _ p _ ws ps' last _ inner innerReached _ _ hs hw hwhole hall within _ ihWithin ih =>
    have hrest := ih (pairwise_rest hw hps) (forall_mem_rest hw hfills)
    -- the window consists of the blocks that take it as a whole and of those behind them
    have hbounds := mem_window_bounds hw hps
    have hwindow := forall_mem_window hw hfills
    have hlast : p.offset ≤ last :=
      Nat.le_trans (Nat.le_add_right _ _) (hbounds p List.mem_cons_self).2
    rw [← List.cons_append, List.forall_mem_append] at hbounds hwindow
    have hmembers := spans_of_mem_shared hwindow.1 hbounds.1 (List.forall_mem_cons.2 ⟨hwhole, hall⟩)
    have hinner := ihWithin (List.pairwise_append.1 (pairwise_window hw hps)).2.1 hwindow.2
    have hstruct := within.exact_struct hwindow.2 hlast (fun q hq => (hbounds.2 q hq).2) hinner
    refine exact_window (List.forall_mem_singleton.2 (exact_union ?_)) hrest
    exact List.forall_mem_append.2 ⟨hmembers, List.forall_mem_singleton.2 ⟨⟨rfl, rfl⟩, hstruct⟩⟩
  | @apart _ p _ ws last _ _ _ hs hw _ ih =>
    have hrest := ih (pairwise_rest hw hps) (forall_mem_rest hw hfills)
    refine exact_window (List.forall_mem_singleton.2 (exact_union fun d hd => ?_)) hrest
    obtain ⟨q, hq, rfl⟩ := List.mem_map.1 hd
    obtain ⟨ho, hfin⟩ := mem_window_bounds hw hps q hq
    exact ⟨⟨rfl, rfl⟩, (forall_mem_window hw hfills q hq).exact_padded ho hfin⟩

/-! ## Layouts -/

theorem reach_of_isPlaced {es : List Element} {ps : List Placed}
    (h : List.Forall₂ IsPlaced es ps) : reach 0 ps = Element.extent es := by
  induction h with
  | nil => rfl
  | cons he _ ih =>
    simp only [reach_cons, Element.extent, ih, Placed.fin, he.offset_eq, he.size_eq]

theorem fills_of_isPlaced {es : List Element} {ps : List Placed}
    (h : List.Forall₂ IsPlaced es ps) : ∀ p ∈ ps, p.Fills := by
  intro p hp
  obtain ⟨e, -, he⟩ := exists_isPlaced_of_mem h hp
  have := fills_of_declare he.declare_eq
  rwa [← he.offset_eq, ← he.size_eq] at this

end Layout

/-- **Tiling.** The declarations of a layout follow each other without gap or overlap from 0 to the
furthest end of an element that is not hidden. At every depth, the members of a structure do so
from its start to its end, and the members of a union all take its range. -/
theorem layout_tiles {es : List Element} {ds : List Decl} (h : layout es = .ok ds) :
    Decl.Tiles 0 ds (Element.extent (Element.visible es)) ∧ ∀ d ∈ ds, d.Exact := by
  obtain ⟨ps, reached, hplaced, hps, harr⟩ := Layout.arranged_of_layout h
  have hfills := Layout.fills_of_isPlaced hplaced
  refine ⟨?_, harr.exact hps hfills⟩
  have hreached : reached = Element.extent (Element.visible es) :=
    calc reached = Layout.reach 0 ps := harr.reached_eq
      _ = Element.extent (Element.sortLevel (Element.visible es)) :=
        Layout.reach_of_isPlaced hplaced
      _ = Element.extent (Element.visible es) := Element.extent_perm (Element.sortLevel_perm _)
  exact hreached ▸ harr.tiles hfills

section Example

/-- A pair with a whole block, a pair of whole blocks, and a pair without one. -/
private def overlapping : List Element :=
  [.register (.plain "Q" 18 32), .register (.plain "R1" 0 16), .register (.plain "R0" 0 32),
   .register (.plain "B" 8 64), .register (.plain "A" 8 64), .register (.plain "P" 16 32),
   .register { Register.plain "H" 4 32 with flags := { hidden := true } }]

private def overlappingDecls : List Decl :=
  [.union 0 4 [.register (.plain "R0" 0 32) 0,
     .struct 0 4 [.register (.plain "R1" 0 16) 0, .reserved 2 2]],
   .reserved 4 4,
   .union 8 8 [.register (.plain "A" 8 64) 8, .register (.plain "B" 8 64) 8],
   .union 16 6 [.struct 16 6 [.register (.plain "P" 16 32) 16, .reserved 20 2],
     .struct 16 6 [.reserved 16 2, .register (.plain "Q" 18 32) 18]]]

theorem layout_tiles_overlapping :
    layout overlapping = .ok overlappingDecls ∧ Decl.Tiles 0 overlappingDecls 22 ∧
      ∀ d ∈ overlappingDecls, d.Exact :=
  have h : layout overlapping = .ok overlappingDecls := by cbv
  ⟨h, layout_tiles h⟩

end Example

end RegisterMap
