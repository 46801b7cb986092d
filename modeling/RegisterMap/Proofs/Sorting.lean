import Mathlib
import RegisterMap.Proofs.Element
import RegisterMap.Proofs.Success

/-!
# Sorted trees

A tree of elements that was sorted at every level stays as it is when it is sorted again
(`Element.sortAll_sortAll`), and so does a sorted tree whose registers were changed in what the
order does not see (`Element.sortAll_mapRegistersAll`). Deleted elements that were taken out do not
come back. Sorting keeps all registers, and taking out deleted elements adds none.
-/

namespace RegisterMap.Element

/-! ## What the order sees -/

/-- The elements have the same place in the order of their level. -/
structure SamePlace (e f : Element) : Prop where
  offset_eq : f.offset = e.offset
  totalSize_eq : f.totalSize = e.totalSize
  name_eq : f.name = e.name

theorem SamePlace.refl (e : Element) : SamePlace e e := ⟨rfl, rfl, rfl⟩

theorem SamePlace.precedes_eq {e f e' f' : Element} (he : SamePlace e e') (hf : SamePlace f f') :
    e'.precedes f' = e.precedes f := by
  unfold precedes order
  rw [he.offset_eq, he.totalSize_eq, he.name_eq, hf.offset_eq, hf.totalSize_eq, hf.name_eq]

/-- A change that leaves elements in their places goes with sorting. -/
theorem sortLevel_map {g : Element → Element} (h : ∀ e, SamePlace e (g e)) (es : List Element) :
    sortLevel (es.map g) = (sortLevel es).map g :=
  (List.map_mergeSort fun a _ b _ => ((h a).precedes_eq (h b)).symm).symm

/-- The elements of the level are in layout order. -/
def IsOrdered (es : List Element) : Prop := es.Pairwise fun e f => e.precedes f = true

theorem isOrdered_sortLevel (es : List Element) : IsOrdered (sortLevel es) :=
  pairwise_mergeSort_isLE order es

theorem IsOrdered.sortLevel_eq {es : List Element} (h : IsOrdered es) : sortLevel es = es :=
  List.mergeSort_of_pairwise h

theorem IsOrdered.of_samePlace {es fs : List Element} (h : IsOrdered es)
    (hfs : List.Forall₂ SamePlace es fs) : IsOrdered fs := by
  induction hfs with
  | nil => exact h
  | @cons e f es fs he hes ih =>
    obtain ⟨hhead, htail⟩ := List.pairwise_cons.1 h
    refine List.pairwise_cons.2 ⟨fun f' hf' => ?_, ih htail⟩
    obtain ⟨e', he', hplace⟩ := exists_mem_of_forall₂ hes hf'
    rw [he.precedes_eq hplace]
    exact hhead e' he'

/-! ## Sorting at every level -/

mutual

theorem samePlace_sortWithin : (e : Element) → SamePlace e e.sortWithin
  | .register r => .refl _
  | .cluster c es => by
    refine ⟨rfl, ?_, rfl⟩
    have hextent : extent (sortLevel (sortEach es)) = extent es :=
      (extent_perm (sortLevel_perm _)).trans (extent_sortEach es)
    unfold sortWithin totalSize
    rw [hextent]

theorem extent_sortEach : (es : List Element) → extent (sortEach es) = extent es
  | [] => rfl
  | e :: es => by
    have he := samePlace_sortWithin e
    rw [sortEach, extent, extent, he.offset_eq, he.totalSize_eq, extent_sortEach es]

end

theorem flags_sortWithin (e : Element) : e.sortWithin.flags = e.flags := by cases e <;> rfl

theorem sortEach_sortLevel (es : List Element) :
    sortEach (sortLevel es) = sortLevel (sortEach es) := by
  rw [sortEach_eq_map, sortEach_eq_map, sortLevel_map samePlace_sortWithin]

mutual

theorem sortWithin_sortWithin : (e : Element) → e.sortWithin.sortWithin = e.sortWithin
  | .register _ => rfl
  | .cluster c es => by
    rw [sortWithin, sortWithin, sortEach_sortLevel, sortEach_sortEach es, sortLevel_sortLevel]

theorem sortEach_sortEach : (es : List Element) → sortEach (sortEach es) = sortEach es
  | [] => rfl
  | e :: es => by rw [sortEach, sortEach, sortWithin_sortWithin e, sortEach_sortEach es]

end

theorem sortAll_eq_map (es : List Element) : sortAll es = (sortLevel es).map sortWithin := by
  rw [sortAll, sortEach_eq_map, sortLevel_map samePlace_sortWithin]

theorem sortAll_sortAll (es : List Element) : sortAll (sortAll es) = sortAll es := by
  unfold sortAll
  rw [sortEach_sortLevel, sortEach_sortEach, sortLevel_sortLevel]

/-- A list is sorted at every level when its own level is and each element is within. -/
theorem sortAll_eq_self_iff {es : List Element} :
    sortAll es = es ↔ IsOrdered es ∧ ∀ e ∈ es, e.sortWithin = e := by
  constructor
  · intro h
    refine ⟨h ▸ isOrdered_sortLevel _, fun e he => ?_⟩
    rw [← h, sortAll, sortEach_eq_map] at he
    obtain ⟨f, -, rfl⟩ := List.mem_map.1 ((sortLevel_perm _).mem_iff.1 he)
    exact sortWithin_sortWithin f
  · rintro ⟨hordered, hwithin⟩
    rw [sortAll, sortEach_eq_map, List.map_congr_left hwithin, List.map_id', hordered.sortLevel_eq]

/-! ## Changes of registers -/

section MapRegisters

/-- The change leaves registers in their places. -/
def KeepsPlaces (f : Register → Register) : Prop :=
  ∀ r, SamePlace (.register r) (.register (f r))

variable {f : Register → Register}

mutual

theorem KeepsPlaces.mapRegisters (hf : KeepsPlaces f) : (e : Element) →
    SamePlace e (e.mapRegisters f)
  | .register r => hf r
  | .cluster c es => by
    refine ⟨rfl, ?_, rfl⟩
    unfold Element.mapRegisters totalSize
    rw [hf.extent_mapRegistersAll es]

theorem KeepsPlaces.extent_mapRegistersAll (hf : KeepsPlaces f) : (es : List Element) →
    extent (mapRegistersAll f es) = extent es
  | [] => rfl
  | e :: es => by
    have he := hf.mapRegisters e
    rw [mapRegistersAll, extent, extent, he.offset_eq, he.totalSize_eq,
      hf.extent_mapRegistersAll es]

end

theorem sortLevel_mapRegistersAll (hf : KeepsPlaces f) (es : List Element) :
    sortLevel (mapRegistersAll f es) = mapRegistersAll f (sortLevel es) := by
  rw [mapRegistersAll_eq_map, mapRegistersAll_eq_map, sortLevel_map hf.mapRegisters]

mutual

theorem sortWithin_mapRegisters (hf : KeepsPlaces f) : (e : Element) →
    (e.mapRegisters f).sortWithin = e.sortWithin.mapRegisters f
  | .register _ => rfl
  | .cluster c es => by
    rw [mapRegisters, sortWithin, sortWithin, mapRegisters, sortEach_mapRegistersAll hf es,
      sortLevel_mapRegistersAll hf]

theorem sortEach_mapRegistersAll (hf : KeepsPlaces f) : (es : List Element) →
    sortEach (mapRegistersAll f es) = mapRegistersAll f (sortEach es)
  | [] => rfl
  | e :: es => by
    rw [mapRegistersAll, sortEach, sortEach, mapRegistersAll, sortWithin_mapRegisters hf e,
      sortEach_mapRegistersAll hf es]

end

/-- A change of registers that leaves them in their places goes with sorting at every level. -/
theorem sortAll_mapRegistersAll (hf : KeepsPlaces f) (es : List Element) :
    sortAll (mapRegistersAll f es) = mapRegistersAll f (sortAll es) := by
  rw [sortAll, sortEach_mapRegistersAll hf, sortLevel_mapRegistersAll hf, sortAll]

end MapRegisters

/-! ## Taking out deleted elements -/

theorem isIntactAll_iff {es : List Element} :
    isIntactAll es = true ↔ ∀ e ∈ es, e.isIntact = true := by
  induction es with
  | nil => simp [isIntactAll]
  | cons e es ih => rw [isIntactAll, Bool.and_eq_true, ih, List.forall_mem_cons]

mutual

theorem isIntact_compact : (e : Element) → e.deleted = false → e.compact.isIntact = true
  | .register r, h => by
    rw [compact, isIntact, Bool.not_eq_true']
    exact h
  | .cluster c es, h => by
    rw [compact, isIntact, isIntactAll_compactAll es, Bool.and_true, Bool.not_eq_true']
    exact h

/-- Elements from which the deleted ones were taken out are intact. -/
theorem isIntactAll_compactAll : (es : List Element) → isIntactAll (compactAll es) = true
  | [] => rfl
  | e :: es => by
    rw [compactAll]
    split
    · exact isIntactAll_compactAll es
    · rename_i he
      rw [isIntactAll, isIntact_compact e (Bool.eq_false_iff.2 he), isIntactAll_compactAll es,
        Bool.and_self]

end

theorem isIntactAll_perm {es fs : List Element} (h : es.Perm fs) :
    isIntactAll es = isIntactAll fs := by
  rw [Bool.eq_iff_iff, isIntactAll_iff, isIntactAll_iff]
  exact ⟨fun hes e he => hes e (h.mem_iff.2 he), fun hfs e he => hfs e (h.mem_iff.1 he)⟩

mutual

theorem isIntact_sortWithin : (e : Element) → e.sortWithin.isIntact = e.isIntact
  | .register _ => rfl
  | .cluster c es => by
    rw [sortWithin, isIntact, isIntact, isIntactAll_perm (sortLevel_perm _),
      isIntactAll_sortEach es]

theorem isIntactAll_sortEach : (es : List Element) → isIntactAll (sortEach es) = isIntactAll es
  | [] => rfl
  | e :: es => by
    rw [sortEach, isIntactAll, isIntactAll, isIntact_sortWithin e, isIntactAll_sortEach es]

end

theorem isIntactAll_sortAll (es : List Element) : isIntactAll (sortAll es) = isIntactAll es := by
  rw [sortAll, isIntactAll_perm (sortLevel_perm _), isIntactAll_sortEach]

/-! ## What is in them -/

theorem mem_sortAll_iff {e : Element} {es : List Element} :
    e ∈ sortAll es ↔ ∃ f ∈ es, f.sortWithin = e := by
  rw [sortAll, (sortLevel_perm _).mem_iff, sortEach_eq_map, List.mem_map]

theorem mem_compactAll_iff {e : Element} {es : List Element} :
    e ∈ compactAll es ↔ ∃ f ∈ es, f.deleted = false ∧ f.compact = e := by
  simp only [compactAll_eq_map, List.mem_map, List.mem_filter, Bool.not_eq_true', and_assoc]

theorem register_mem_sortAll_iff {r : Register} {es : List Element} :
    register r ∈ sortAll es ↔ register r ∈ es := by
  rw [mem_sortAll_iff]
  constructor
  · rintro ⟨f, hf, h⟩
    cases f with
    | register s => exact h ▸ hf
    | cluster c fs => cases h
  · exact fun h => ⟨_, h, rfl⟩

theorem register_mem_compactAll_iff {r : Register} {es : List Element} :
    register r ∈ compactAll es ↔ register r ∈ es ∧ r.deleted = false := by
  rw [mem_compactAll_iff]
  constructor
  · rintro ⟨f, hf, hdeleted, h⟩
    cases f with
    | register s =>
      cases h
      exact ⟨hf, hdeleted⟩
    | cluster c fs => cases h
  · exact fun ⟨h, hdeleted⟩ => ⟨_, h, hdeleted, rfl⟩

mutual

theorem registers_sortWithin : (e : Element) → e.sortWithin.registers.Perm e.registers
  | .register r => .refl [r]
  | .cluster _ es => by
    have h := (sortLevel_perm (sortEach es)).flatMap_right registers
    rw [← registersAll_eq_flatMap, ← registersAll_eq_flatMap] at h
    exact h.trans (registersAll_sortEach es)

theorem registersAll_sortEach :
    (es : List Element) → (registersAll (sortEach es)).Perm (registersAll es)
  | [] => .nil
  | e :: es => (registers_sortWithin e).append (registersAll_sortEach es)

end

/-- Sorting keeps the registers. -/
theorem registersAll_sortAll (es : List Element) :
    (registersAll (sortAll es)).Perm (registersAll es) := by
  have h := (sortLevel_perm (sortEach es)).flatMap_right registers
  rw [← registersAll_eq_flatMap, ← registersAll_eq_flatMap] at h
  exact h.trans (registersAll_sortEach es)

mutual

theorem registers_compact_sublist : (e : Element) → e.compact.registers.Sublist e.registers
  | .register r => .refl [r]
  | .cluster _ es => registersAll_compactAll_sublist es

/-- Taking out deleted elements adds no registers. -/
theorem registersAll_compactAll_sublist :
    (es : List Element) → (registersAll (compactAll es)).Sublist (registersAll es)
  | [] => .slnil
  | e :: es => by
    rw [compactAll, registersAll]
    split
    · exact (registersAll_compactAll_sublist es).trans (List.sublist_append_right _ _)
    · exact (registers_compact_sublist e).append (registersAll_compactAll_sublist es)

end

/-! ## How many registers there are -/

mutual

/-- The number of registers in the element that are not deleted. -/
def count : Element → Nat
  | register r => if r.deleted then 0 else 1
  | cluster c es => if c.deleted then 0 else countAll es

/-- The number of registers in the elements that are not deleted. -/
def countAll : List Element → Nat
  | [] => 0
  | e :: es => e.count + countAll es

end

theorem countAll_eq_sum (es : List Element) : countAll es = (es.map count).sum := by
  induction es with
  | nil => rfl
  | cons e es ih => rw [countAll, ih, List.map_cons, List.sum_cons]

theorem countAll_append (es fs : List Element) :
    countAll (es ++ fs) = countAll es + countAll fs := by
  simp only [countAll_eq_sum, List.map_append, List.sum_append]

theorem countAll_perm {es fs : List Element} (h : es.Perm fs) : countAll es = countAll fs := by
  rw [countAll_eq_sum, countAll_eq_sum]
  exact (h.map count).sum_nat

theorem count_of_deleted {e : Element} (h : e.deleted = true) : e.count = 0 := by
  cases e with
  | register r => exact if_pos h
  | cluster c es => exact if_pos h

theorem countAll_cons_of_deleted {e : Element} (h : e.deleted = true) (es : List Element) :
    countAll (e :: es) = countAll es := by
  rw [countAll, count_of_deleted h, Nat.zero_add]

theorem count_register {r : Register} (h : r.deleted = false) : (register r).count = 1 :=
  if_neg (Bool.eq_false_iff.1 h)

theorem countAll_filter (es : List Element) :
    countAll (es.filter (!·.deleted)) = countAll es := by
  induction es with
  | nil => rfl
  | cons e es ih =>
    cases he : e.deleted with
    | true => rw [List.filter_cons_of_neg (by simp [he]), countAll_cons_of_deleted he, ih]
    | false => rw [List.filter_cons_of_pos (by simp [he]), countAll, countAll, ih]

mutual

theorem count_compact : (e : Element) → e.compact.count = e.count
  | .register _ => rfl
  | .cluster c es => by rw [compact, count, count, countAll_compactAll es]

/-- Taking out deleted elements takes out no others. -/
theorem countAll_compactAll : (es : List Element) → countAll (compactAll es) = countAll es
  | [] => rfl
  | e :: es => by
    rw [compactAll]
    split
    · rename_i he
      rw [countAll_compactAll es, countAll_cons_of_deleted he]
    · rw [countAll, countAll, count_compact e, countAll_compactAll es]

end

mutual

theorem count_sortWithin : (e : Element) → e.sortWithin.count = e.count
  | .register _ => rfl
  | .cluster c es => by
    rw [sortWithin, count, count, countAll_perm (sortLevel_perm _), countAll_sortEach es]

theorem countAll_sortEach : (es : List Element) → countAll (sortEach es) = countAll es
  | [] => rfl
  | e :: es => by rw [sortEach, countAll, countAll, count_sortWithin e, countAll_sortEach es]

end

theorem countAll_sortAll (es : List Element) : countAll (sortAll es) = countAll es := by
  rw [sortAll, countAll_perm (sortLevel_perm _), countAll_sortEach]

end RegisterMap.Element
