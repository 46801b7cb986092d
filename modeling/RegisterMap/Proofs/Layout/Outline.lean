import RegisterMap.Proofs.Layout.Relabelling
import RegisterMap.Proofs.Sorting

/-!
# Outlines

The outline of an element keeps what its layout and its declaration depend on and blanks out the
rest. Structurally equal elements have one outline (`Element.outline_eq_of_equivalent`), and laying
out goes with taking outlines (`layout_outline`). What is sorted first is laid out as before
(`layout_sortAll`).
-/

namespace RegisterMap

/-- The register with what neither its layout nor its declaration depends on left blank. -/
def Register.outline (r : Register) : Register :=
  { r with
    description := "", resetValue := 0, resetMask := 0, derivedFrom := none, fields := [],
    deleted := false }

/-- The head of a cluster with what its declaration does not depend on left blank. -/
def Cluster.outline (c : Cluster) : Cluster := { c with description := "", deleted := false }

namespace Element

mutual

/-- The element as the outlines of the registers and clusters in it. -/
def outline : Element → Element
  | register r => register r.outline
  | cluster c es => cluster c.outline (outlineAll es)

/-- The outlines of the elements. -/
def outlineAll : List Element → List Element
  | [] => []
  | e :: es => e.outline :: outlineAll es

end

@[simp] theorem offset_outline (e : Element) : e.outline.offset = e.offset := by cases e <;> rfl

@[simp] theorem name_outline (e : Element) : e.outline.name = e.name := by cases e <;> rfl

@[simp] theorem flags_outline (e : Element) : e.outline.flags = e.flags := by cases e <;> rfl

mutual

@[simp] theorem totalSize_outline : (e : Element) → e.outline.totalSize = e.totalSize
  | .register _ => rfl
  | .cluster c es => by
    unfold outline totalSize
    rw [extent_outlineAll es]
    rfl

@[simp] theorem extent_outlineAll : (es : List Element) → extent (outlineAll es) = extent es
  | [] => rfl
  | e :: es => by
    rw [outlineAll, extent, extent, offset_outline, totalSize_outline e, extent_outlineAll es]

end

/-! ## Structurally equal elements -/

mutual

/-- Structurally equal elements have one outline, unless access types are passed over. -/
theorem outline_eq_of_equivalent {cmp : Comparison} (hcmp : cmp.ignoreAccess = false) :
    (e f : Element) → e.equivalent cmp f = true → e.outline = f.outline
  | .register r, .register s, h => by
    simp only [equivalent, Register.equivalentLayout, Register.equivalentBody, hcmp,
      Bool.false_or, Bool.and_eq_true, beq_iff_eq] at h
    obtain ⟨⟨⟨⟨hname, hoffset⟩, -⟩, hflags⟩, ⟨⟨⟨⟨hwidth, -⟩, hdim⟩, haccess⟩, -⟩, -⟩ := h
    simp only [outline, Register.outline, hname, hoffset, hflags, hwidth, hdim, haccess]
  | .cluster c es, .cluster d fs, h => by
    simp only [equivalent, Bool.and_eq_true, beq_iff_eq] at h
    obtain ⟨⟨⟨⟨hname, hoffset⟩, hdim⟩, hflags⟩, hes⟩ := h
    simp only [outline, Cluster.outline, hname, hoffset, hdim, hflags,
      outlineAll_eq_of_equivalentAll hcmp es fs hes]
  | .register _, .cluster _ _, h => nomatch h
  | .cluster _ _, .register _, h => nomatch h

theorem outlineAll_eq_of_equivalentAll {cmp : Comparison} (hcmp : cmp.ignoreAccess = false) :
    (es fs : List Element) → equivalentAll cmp es fs = true → outlineAll es = outlineAll fs
  | [], [], _ => rfl
  | e :: es, f :: fs, h => by
    rw [equivalentAll, Bool.and_eq_true] at h
    rw [outlineAll, outlineAll, outline_eq_of_equivalent hcmp e f h.1,
      outlineAll_eq_of_equivalentAll hcmp es fs h.2]
  | [], _ :: _, h => nomatch h
  | _ :: _, [], h => nomatch h

end

end Element

/-! ## Outlines of declarations -/

namespace Decl

mutual

/-- The declaration with its registers and the heads of its clusters changed. -/
def mapHeads (f : Register → Register) (g : Cluster → Cluster) : Decl → Decl
  | register r offset => register (f r) offset
  | element r i offset => element (f r) i offset
  | cluster c offset size ds => cluster (g c) offset size (mapHeadsAll f g ds)
  | union offset size ds => union offset size (mapHeadsAll f g ds)
  | struct offset size ds => struct offset size (mapHeadsAll f g ds)
  | reserved offset size => reserved offset size

/-- The declarations with all registers and heads of clusters in them changed. -/
def mapHeadsAll (f : Register → Register) (g : Cluster → Cluster) : List Decl → List Decl
  | [] => []
  | d :: ds => d.mapHeads f g :: mapHeadsAll f g ds

end

theorem mapHeadsAll_eq_map (f : Register → Register) (g : Cluster → Cluster) (ds : List Decl) :
    mapHeadsAll f g ds = ds.map (mapHeads f g) := by
  induction ds with
  | nil => rfl
  | cons d ds ih => rw [mapHeadsAll, ih, List.map_cons]

/-- The declaration with the description of every register replaced by the empty text. -/
def undescribed (d : Decl) : Decl := d.mapHeads (fun r => { r with description := "" }) id

/-- The declaration of the outlines of its registers and clusters. -/
def outline (d : Decl) : Decl := d.mapHeads Register.outline Cluster.outline

@[simp] theorem offset_outline (d : Decl) : d.outline.offset = d.offset := by cases d <;> rfl

@[simp] theorem size_outline (d : Decl) : d.outline.size = d.size := by cases d <;> rfl

@[simp] theorem fin_outline (d : Decl) : d.outline.fin = d.fin := by
  rw [fin, fin, offset_outline, size_outline]

@[simp] theorem lastFin_map_outline (ds : List Decl) : lastFin (ds.map outline) = lastFin ds := by
  have hfin : fin ∘ outline = fin := funext fin_outline
  rw [lastFin, List.getLast?_map, Option.map_map, hfin, lastFin]

theorem outline_cluster (c : Cluster) (offset size : Nat) (ds : List Decl) :
    (cluster c offset size ds).outline = cluster c.outline offset size (ds.map outline) := by
  rw [outline, mapHeads, mapHeadsAll_eq_map]
  rfl

theorem isRelabelling_outline : IsRelabelling outline where
  reserved_eq _ _ := rfl
  union_eq offset size ds := by
    rw [outline, mapHeads, mapHeadsAll_eq_map]
    rfl
  struct_eq offset size ds := by
    rw [outline, mapHeads, mapHeadsAll_eq_map]
    rfl

@[simp] theorem map_outline_gap (a b : Nat) : (gap a b).map outline = gap a b :=
  isRelabelling_outline.map_gap a b

end Decl

/-! ## Outlines of layouts -/

namespace Layout

/-- The declarations of the content as outlines. -/
def Content.outline (c : Content) : Content where
  alone := c.alone.map Decl.outline
  shared := c.shared.map Decl.outline

/-- The block that declares outlines if it declares anything. -/
def Block.outline (b : Block) : Block := { b with content := b.content.map Content.outline }

theorem assemble_outline (bs : List Block) :
    assemble (bs.map Block.outline) = (assemble bs).map (List.map Decl.outline) := by
  refine assemble_map Decl.isRelabelling_outline (fun a _ b _ => rfl) fun b _ => ?_
  unfold Block.place Block.outline
  cases b.content <;> rfl

theorem elements_outline (r : Register) (d : Dim) :
    elements r.outline d = (elements r d).map Decl.outline := by
  unfold elements
  rw [List.map_flatMap]
  apply List.flatMap_congr
  intro i _
  rw [List.map_cons, Decl.map_outline_gap]
  rfl

theorem declareRegister_outline (r : Register) :
    declareRegister r.outline = (declareRegister r).map Content.outline := by
  unfold declareRegister
  simp only [show r.outline.dim = r.dim from rfl]
  cases hd : r.dim with
  | none => rfl
  | some d =>
    have hwhole : r.outline.isDeclaredAsArray = r.isDeclaredAsArray := rfl
    simp only [hwhole]
    split
    · rfl
    · simp only [show r.outline.name = r.name from rfl,
        show r.outline.elementSize = r.elementSize from rfl]
      split
      · rfl
      · simp only [Except.map, Content.outline, elements_outline, List.map_cons, List.map_nil,
          Decl.isRelabelling_outline.struct_eq]
        rfl

theorem fillCluster_outline (c : Cluster) (ds : List Decl) :
    fillCluster c.outline (ds.map Decl.outline) =
      (fillCluster c ds).map (List.map Decl.outline) := by
  unfold fillCluster
  simp only [show c.outline.dim = c.dim from rfl, Decl.lastFin_map_outline]
  cases c.dim with
  | none => rfl
  | some d =>
    simp only
    split
    · rfl
    · simp only [Except.map, List.map_append, Decl.map_outline_gap]

mutual

theorem declare_outline : (e : Element) →
    declare e.outline = (declare e).map Content.outline
  | .register r => declareRegister_outline r
  | .cluster c es => by
    have hsize : (Element.cluster c.outline (Element.outlineAll es)).totalSize =
        (Element.cluster c es).totalSize := Element.totalSize_outline (.cluster c es)
    rw [Element.outline, declare, declare, blocks_outline es, assemble_outline, hsize]
    cases assemble (blocks es) with
    | error f => rfl
    | ok ds =>
      simp only [Except.map, bind, Except.bind, fillCluster_outline]
      cases fillCluster c ds with
      | error f => rfl
      | ok ms =>
        simp only [pure, Except.pure, Content.outline, List.map_cons, List.map_nil,
          Decl.outline_cluster]
        rfl

theorem blocks_outline : (es : List Element) →
    blocks (Element.outlineAll es) = (blocks es).map Block.outline
  | [] => rfl
  | e :: es => by
    rw [Element.outlineAll, blocks, blocks, Element.flags_outline, blocks_outline es]
    split
    · rfl
    · simp only [List.map_cons, Block.outline, Element.offset_outline, Element.totalSize_outline,
        Element.name_outline, declare_outline e]

end

end Layout

/-- The layout of outlines is the layout, with an outline for each declaration. -/
theorem layout_outline (es : List Element) :
    layout (Element.outlineAll es) = (layout es).map (List.map Decl.outline) := by
  rw [layout, Layout.blocks_outline, Layout.assemble_outline, layout]

/-! ## Elements in layout order -/

/-- Elements that are put in layout order first are laid out as before. -/
theorem layout_sortLevel (es : List Element) : layout (Element.sortLevel es) = layout es := by
  have hvisible : Element.sortLevel (Element.visible (Element.sortLevel es)) =
      Element.sortLevel (Element.visible es) := by
    unfold Element.visible
    rw [Element.sortLevel_filter, Element.sortLevel_filter, Element.sortLevel_sortLevel]
  simp only [layout, Layout.assemble, Layout.mergeSort_blocks, hvisible]

namespace Layout

open Element

mutual

theorem declare_sortWithin : (e : Element) → declare e.sortWithin = declare e
  | .register _ => rfl
  | .cluster c es => by
    have hsize := (samePlace_sortWithin (.cluster c es)).totalSize_eq
    have hmembers : assemble (blocks (sortLevel (sortEach es))) = assemble (blocks es) := by
      rw [← layout, layout_sortLevel, layout, blocks_sortEach es]
    rw [sortWithin] at hsize ⊢
    rw [declare, declare, hmembers, hsize]

theorem blocks_sortEach : (es : List Element) → blocks (sortEach es) = blocks es
  | [] => rfl
  | e :: es => by
    have hplace := samePlace_sortWithin e
    rw [sortEach, blocks, blocks, flags_sortWithin, hplace.offset_eq, hplace.totalSize_eq,
      hplace.name_eq, declare_sortWithin e, blocks_sortEach es]

end

end Layout

/-- Elements that are put in layout order at every level are laid out as before. -/
theorem layout_sortAll (es : List Element) : layout (Element.sortAll es) = layout es := by
  rw [Element.sortAll, layout_sortLevel, layout, Layout.blocks_sortEach, layout]

end RegisterMap
