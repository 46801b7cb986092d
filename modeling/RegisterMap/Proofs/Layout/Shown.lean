import RegisterMap.Proofs.Instance
import RegisterMap.Proofs.Layout.Leaves

/-!
# Words of a layout

The addresses and widths that a layout declares words for, with C arrays written out and clusters
followed (`Decl.wordsAll`). They are those of the tree of elements without the hidden ones
(`Element.shownAll`, `layout_words`).
-/

namespace RegisterMap

namespace Decl

mutual

/-- The words that a declaration is of whose owner lies at an address: where they lie, and how many
bits they have. -/
def words (base : Nat) : Decl → List (Nat × Nat)
  | register r offset =>
    (List.range (Dim.countOf r.dim)).map fun i => (base + offset + i * r.elementSize, r.width)
  | element r _ offset => [(base + offset, r.width)]
  | cluster c offset _ ms =>
    (List.range (Dim.countOf c.dim)).flatMap fun i =>
      wordsAll (base + offset + i * Dim.strideOf c.dim) ms
  | union _ _ ms => wordsAll base ms
  | struct _ _ ms => wordsAll base ms
  | reserved _ _ => []

/-- The words that declarations are of whose owner lies at an address. -/
def wordsAll (base : Nat) : List Decl → List (Nat × Nat)
  | [] => []
  | d :: ds => d.words base ++ wordsAll base ds

end

theorem wordsAll_eq_flatMap (base : Nat) (ds : List Decl) :
    wordsAll base ds = ds.flatMap (words base) := by
  induction ds with
  | nil => rfl
  | cons d ds ih => rw [wordsAll, ih, List.flatMap_cons]

theorem wordsAll_append (base : Nat) (ds es : List Decl) :
    wordsAll base (ds ++ es) = wordsAll base ds ++ wordsAll base es := by
  simp only [wordsAll_eq_flatMap, List.flatMap_append]

theorem wordsAll_perm (base : Nat) {ds es : List Decl} (h : ds.Perm es) :
    (wordsAll base ds).Perm (wordsAll base es) := by
  simp only [wordsAll_eq_flatMap]
  exact h.flatMap_right _

mutual

theorem wordsAll_leaves (base : Nat) : (d : Decl) → wordsAll base d.leaves = d.words base
  | register _ _ => List.append_nil _
  | element _ _ _ => List.append_nil _
  | cluster _ _ _ _ => List.append_nil _
  | union _ _ ms => wordsAll_leavesAll base ms
  | struct _ _ ms => wordsAll_leavesAll base ms
  | reserved _ _ => rfl

/-- The words of declarations are those of their leaves. -/
theorem wordsAll_leavesAll (base : Nat) : (ds : List Decl) →
    wordsAll base (leavesAll ds) = wordsAll base ds
  | [] => rfl
  | d :: ds => by
    rw [leavesAll, wordsAll_append, wordsAll_leaves base d, wordsAll_leavesAll base ds, wordsAll]

end

end Decl

namespace Element

mutual

/-- The words of an element whose owner lies at an address, none if it is hidden. -/
def shown (base : Nat) : Element → List (Nat × Nat)
  | register r =>
    if r.flags.hidden then []
    else (List.range (Dim.countOf r.dim)).map fun i =>
      (base + r.offset + i * Dim.strideOf r.dim, r.width)
  | cluster c es =>
    if c.flags.hidden then []
    else (List.range (Dim.countOf c.dim)).flatMap fun i =>
      shownAll (base + c.offset + i * Dim.strideOf c.dim) es

/-- The words of elements whose owner lies at an address, those of hidden ones left out. -/
def shownAll (base : Nat) : List Element → List (Nat × Nat)
  | [] => []
  | e :: es => e.shown base ++ shownAll base es

end

theorem shownAll_eq_flatMap (base : Nat) (es : List Element) :
    shownAll base es = es.flatMap (shown base) := by
  induction es with
  | nil => rfl
  | cons e es ih => rw [shownAll, ih, List.flatMap_cons]

theorem shownAll_append (base : Nat) (es fs : List Element) :
    shownAll base (es ++ fs) = shownAll base es ++ shownAll base fs := by
  simp only [shownAll_eq_flatMap, List.flatMap_append]

theorem shownAll_perm (base : Nat) {es fs : List Element} (h : es.Perm fs) :
    (shownAll base es).Perm (shownAll base fs) := by
  simp only [shownAll_eq_flatMap]
  exact h.flatMap_right _

theorem shown_of_hidden {e : Element} (h : e.flags.hidden = true) (base : Nat) :
    e.shown base = [] := by
  cases e with
  | register r => exact if_pos h
  | cluster c es =>
    rw [shown]
    exact if_pos h

/-- The elements of an array that is one member lie behind each other. -/
theorem strideOf_eq_of_isDeclaredAsArray {r : Register} (h : r.isDeclaredAsArray = true) :
    Dim.strideOf r.dim = r.elementSize := by
  have hpacked : r.isPacked = true := by
    simp only [Register.isDeclaredAsArray, Register.isSimpleArray, Bool.or_eq_true,
      Bool.and_eq_true] at h
    exact h.elim And.right And.right
  obtain ⟨d, hd, hstride⟩ := (Option.any_eq_true _ _).1 hpacked
  rw [hd]
  exact beq_iff_eq.1 (Bool.and_eq_true _ _ ▸ hstride).2

theorem LeavesAll.words {es : List Element} {ls : List Decl} (h : LeavesAll es ls)
    (hes : ∀ e ∈ es, e.flags.hidden = false → ∀ ls, Leaves e ls → ∀ base,
      (Decl.wordsAll base ls).Perm (e.shown base)) (base : Nat) :
    (Decl.wordsAll base ls).Perm (shownAll base es) := by
  induction es generalizing ls with
  | nil =>
    cases h
    exact .nil
  | cons e es ih =>
    obtain ⟨he, hes⟩ := List.forall_mem_cons.1 hes
    rw [shownAll]
    cases h with
    | hidden hhidden htail =>
      rw [shown_of_hidden hhidden]
      exact ih htail hes
    | visible hvisible hhead htail =>
      rw [Decl.wordsAll_append]
      exact (he hvisible _ hhead base).append (ih htail hes)

/-- The leaves of a visible element have its words. -/
theorem Leaves.words {e : Element} (hvisible : e.flags.hidden = false) : ∀ {ls : List Decl},
    Leaves e ls → ∀ base, (Decl.wordsAll base ls).Perm (e.shown base) := by
  induction e using tree_induction with
  | register r =>
    intro ls h base
    have hshown : r.flags.hidden = false := hvisible
    rw [shown, hshown, if_neg Bool.false_ne_true]
    cases h with
    | register hwhole =>
      refine .of_eq ((List.append_nil _).trans (List.map_congr_left fun i hi => ?_))
      rcases hwhole with hnone | hwhole
      · rw [hnone] at hi ⊢
        have hzero : i = 0 := Nat.lt_one_iff.1 (List.mem_range.1 hi)
        rw [hzero, Nat.zero_mul, Nat.zero_mul]
      · rw [strideOf_eq_of_isDeclaredAsArray hwhole]
    | array hdim hapart =>
      rw [hdim, Decl.wordsAll_eq_flatMap, List.flatMap_map, List.map_eq_flatMap]
      refine .of_eq (List.flatMap_congr fun i _ => ?_)
      show [(base + (r.offset + i * _), r.width)] = _
      rw [Nat.add_assoc]
      rfl
  | cluster c es ih =>
    intro ls h base
    have hshown : c.flags.hidden = false := hvisible
    rw [shown, hshown, if_neg Bool.false_ne_true]
    cases h with
    | cluster hchildren hperm =>
      refine (List.Perm.of_eq (List.append_nil _)).trans (List.Perm.flatMap_left _ fun i _ => ?_)
      rw [← Decl.wordsAll_leavesAll]
      exact (Decl.wordsAll_perm _ hperm).trans
        (hchildren.words (fun e he hvisible _ hleaves => ih e he hvisible hleaves) _)

end Element

/-- **Words of a layout.** A layout declares the words of the elements that are not hidden, at every
depth of clusters: at their addresses, of their widths, and each as often as it is there. -/
theorem layout_words {es : List Element} {ds : List Decl} (h : layout es = .ok ds) (base : Nat) :
    (Decl.wordsAll base ds).Perm (Element.shownAll base es) := by
  obtain ⟨ls, hls, hperm⟩ := layout_leaves h
  rw [← Decl.wordsAll_leavesAll]
  exact (Decl.wordsAll_perm base hperm).trans
    (hls.words (fun e _ hvisible _ hleaves => hleaves.words hvisible) base)

end RegisterMap
