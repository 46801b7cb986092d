import RegisterMap.AddressBlock
import RegisterMap.Element

/-!
# Orders

The orders by which elements and address blocks are sorted are total and transitive, so that
sorting by them gives a sorted list (`pairwise_mergeSort_isLE`). Sorting is stable: it goes with
taking elements out (`mergeSort_filter`), and elements that differ from sorted ones in their order
alone sort alike.
-/

namespace RegisterMap

open Std

section Sorting

variable {α : Type} (cmp : α → α → Ordering) [TransCmp cmp]

theorem isLE_total (a b : α) : ((cmp a b).isLE || (cmp b a).isLE) = true := by
  cases h : (cmp a b).isLE with
  | true => rfl
  | false =>
    have hlt : cmp b a = .lt := OrientedCmp.lt_of_not_isLE (by simp [h])
    simp [hlt]

theorem pairwise_mergeSort_isLE (as : List α) :
    (as.mergeSort fun a b => (cmp a b).isLE).Pairwise fun a b => (cmp a b).isLE := by
  apply List.pairwise_mergeSort
  · intro a b c hab hbc
    exact TransCmp.isLE_trans hab hbc
  · exact isLE_total cmp

/-- One more element in front is sorted in before the first that it does not come behind. -/
theorem exists_mergeSort_cons (a : α) (as : List α) :
    ∃ fs gs, ((a :: as).mergeSort fun a b => (cmp a b).isLE) = fs ++ a :: gs ∧
      (as.mergeSort fun a b => (cmp a b).isLE) = fs ++ gs ∧
      (∀ b ∈ fs, (cmp a b).isLE = false) ∧ ∀ b ∈ gs, (cmp a b).isLE = true := by
  obtain ⟨fs, gs, hcons, has, hfs⟩ := @List.mergeSort_cons α (fun a b => (cmp a b).isLE)
    (fun _ _ _ => TransCmp.isLE_trans) (isLE_total cmp) a as
  have hsorted := pairwise_mergeSort_isLE cmp (a :: as)
  rw [hcons] at hsorted
  refine ⟨fs, gs, hcons, has, fun b hb => by simpa using hfs b hb, fun b hb => ?_⟩
  exact List.rel_of_pairwise_cons (List.pairwise_append.1 hsorted).2.1 hb

theorem mergeSort_cons_of_append {a : α} {as fs gs : List α}
    (h : (as.mergeSort fun a b => (cmp a b).isLE) = fs ++ gs)
    (hfs : ∀ b ∈ fs, (cmp a b).isLE = false) (hgs : ∀ b ∈ gs, (cmp a b).isLE = true) :
    ((a :: as).mergeSort fun a b => (cmp a b).isLE) = fs ++ a :: gs := by
  obtain ⟨fs', gs', hcons, has, hfs', hgs'⟩ := exists_mergeSort_cons cmp a as
  rw [hcons]
  -- both splits of the sorted list are where the order turns
  rcases List.append_eq_append_iff.1 (has.symm.trans h) with ⟨ms, rfl, rfl⟩ | ⟨ms, rfl, rfl⟩
  · cases ms with
    | nil => simp
    | cons m ms =>
      have hm := hfs m (by simp)
      rw [hgs' m (by simp)] at hm
      cases hm
  · cases ms with
    | nil => simp
    | cons m ms =>
      have hm := hfs' m (by simp)
      rw [hgs m (by simp)] at hm
      cases hm

/-- Elements taken out before sorting are missing in the sorted list, and nothing else changes. -/
theorem mergeSort_filter (p : α → Bool) (as : List α) :
    ((as.filter p).mergeSort fun a b => (cmp a b).isLE) =
      (as.mergeSort fun a b => (cmp a b).isLE).filter p := by
  induction as with
  | nil => simp
  | cons a as ih =>
    obtain ⟨fs, gs, hcons, has, hfs, hgs⟩ := exists_mergeSort_cons cmp a as
    rw [has, List.filter_append] at ih
    rw [hcons]
    by_cases ha : p a = true
    · rw [List.filter_cons_of_pos ha, List.filter_append, List.filter_cons_of_pos ha]
      apply mergeSort_cons_of_append cmp ih
      · intro b hb
        exact hfs b (List.mem_filter.1 hb).1
      · intro b hb
        exact hgs b (List.mem_filter.1 hb).1
    · rw [List.filter_cons_of_neg ha, List.filter_append, List.filter_cons_of_neg ha, ih]

theorem mergeSort_mergeSort (as : List α) :
    ((as.mergeSort fun a b => (cmp a b).isLE).mergeSort fun a b => (cmp a b).isLE) =
      as.mergeSort fun a b => (cmp a b).isLE :=
  List.mergeSort_of_pairwise (pairwise_mergeSort_isLE cmp as)

end Sorting

instance : TransCmp Element.order :=
  inferInstanceAs (TransCmp (compareLex (compareOn Element.offset)
    (compareLex (fun a b => compareOn Element.totalSize b a) (compareOn Element.name))))

instance : TransCmp AddressBlock.order :=
  inferInstanceAs (TransCmp (compareLex (compareOn AddressBlock.offset)
    (compareLex (compareOn AddressBlock.size)
      (compareLex (compareOn AddressBlock.width) (compareOn AddressBlock.usage)))))

namespace AddressBlock

theorem eq_of_order_eq {a b : AddressBlock} (h : a.order b = .eq) : a = b := by
  obtain ⟨offset, size, width, usage⟩ := a
  simp only [order, Ordering.then_eq_eq, LawfulEqCmp.compare_eq_iff_eq] at h
  obtain ⟨rfl, rfl, rfl, rfl⟩ := h
  rfl

theorem order_eq_lt {a b : AddressBlock} (hne : a ≠ b) (h : (a.order b).isLE) :
    a.order b = .lt := by
  cases hab : a.order b with
  | lt => rfl
  | eq => exact absurd (eq_of_order_eq hab) hne
  | gt =>
    rw [hab] at h
    cases h

end AddressBlock

namespace Element

/-- Elements in layout order begin one after the other. -/
theorem pairwise_offset_sortLevel (es : List Element) :
    (sortLevel es).Pairwise fun a b => a.offset ≤ b.offset :=
  (pairwise_mergeSort_isLE order es).imp fun h =>
    Nat.isLE_compare.1 (Ordering.isLE_then_iff_and.1 h).1

theorem sortLevel_sortLevel (es : List Element) : sortLevel (sortLevel es) = sortLevel es :=
  mergeSort_mergeSort order es

theorem sortLevel_filter (p : Element → Bool) (es : List Element) :
    sortLevel (es.filter p) = (sortLevel es).filter p :=
  mergeSort_filter order p es

end Element

end RegisterMap
