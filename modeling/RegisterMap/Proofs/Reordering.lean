import RegisterMap.Proofs.Derivation
import RegisterMap.Proofs.Sorting

/-!
# Trees in another order

A device can be described in any order of its peripherals, its registers and the elements of its
clusters (`Device.Reordered`). Where no two elements of one list have the same place, the layout
order does not depend on the order of the description (`Element.ReorderedAll.sortAll_eq`), and
where names are distinct, neither does what is found by a name.
-/

namespace RegisterMap

namespace Element

/-! ## Orders of a tree -/

mutual

/-- The second element is the first with the elements of its clusters in any order. -/
inductive Reordered : Element → Element → Prop
  | register (r : Register) : Reordered (.register r) (.register r)
  | cluster (c : Cluster) {es fs : List Element} (h : ReorderedAll es fs) :
    Reordered (.cluster c es) (.cluster c fs)

/-- The second list is the first in any order, with the elements of clusters in any order too. -/
inductive ReorderedAll : List Element → List Element → Prop
  | nil : ReorderedAll [] []
  | cons {e f : Element} {es fs : List Element} (he : Reordered e f) (hes : ReorderedAll es fs) :
    ReorderedAll (e :: es) (f :: fs)
  | swap (e f : Element) (es : List Element) : ReorderedAll (e :: f :: es) (f :: e :: es)
  | trans {es fs gs : List Element} (h : ReorderedAll es fs) (h' : ReorderedAll fs gs) :
    ReorderedAll es gs

end

mutual

theorem Reordered.refl : (e : Element) → Reordered e e
  | .register r => .register r
  | .cluster c es => .cluster c (ReorderedAll.refl es)

theorem ReorderedAll.refl : (es : List Element) → ReorderedAll es es
  | [] => .nil
  | e :: es => .cons (Reordered.refl e) (ReorderedAll.refl es)

end

/-- Every order of a list is one. -/
theorem ReorderedAll.of_perm {es fs : List Element} (h : es.Perm fs) : ReorderedAll es fs := by
  induction h with
  | nil => exact .nil
  | cons e _ ih => exact .cons (.refl e) ih
  | swap e f es => exact .swap f e es
  | trans _ _ ih ih' => exact ih.trans ih'

/-! ## Places -/

/-- What the layout order sees of an element. -/
def place (e : Element) : Nat × Nat × String := (e.offset, e.totalSize, e.name)

theorem SamePlace.place_eq {e f : Element} (h : SamePlace e f) : f.place = e.place := by
  rw [place, h.offset_eq, h.totalSize_eq, h.name_eq, place]

/-- Only elements of the same place come each before the other. -/
theorem place_eq_of_precedes {e f : Element} (h : e.precedes f = true) (h' : f.precedes e = true) :
    e.place = f.place := by
  have heq : e.order f = .eq := Std.OrientedCmp.isLE_antisymm h h'
  simp only [order, Ordering.then_eq_eq, Std.LawfulEqCmp.compare_eq_iff_eq] at heq
  rw [place, place, heq.1, heq.2.1, heq.2.2]

mutual

/-- In no list within the element two elements have the same place. -/
def PlacesDiffer : Element → Prop
  | register _ => True
  | cluster _ es => (es.map place).Nodup ∧ PlacesDifferEach es

/-- In no list within any of the elements two elements have the same place. -/
def PlacesDifferEach : List Element → Prop
  | [] => True
  | e :: es => e.PlacesDiffer ∧ PlacesDifferEach es

end

mutual

/-- Whether places differ is decided along the tree. -/
def decidePlacesDiffer : (e : Element) → Decidable e.PlacesDiffer
  | .register _ => isTrue trivial
  | .cluster _ es => @instDecidableAnd _ _ inferInstance (decidePlacesDifferEach es)

def decidePlacesDifferEach : (es : List Element) → Decidable (PlacesDifferEach es)
  | [] => isTrue trivial
  | e :: es => @instDecidableAnd _ _ (decidePlacesDiffer e) (decidePlacesDifferEach es)

end

instance : DecidablePred PlacesDifferEach := decidePlacesDifferEach

/-- No two elements of one list have the same place, at any level. -/
def HasDistinctPlaces (es : List Element) : Prop := (es.map place).Nodup ∧ PlacesDifferEach es

instance : DecidablePred HasDistinctPlaces := fun _ => inferInstanceAs (Decidable (_ ∧ _))

mutual

theorem Reordered.place_eq {e f : Element} : Reordered e f → f.place = e.place
  | .register _ => rfl
  | .cluster c h => by
    rw [place, place, totalSize, totalSize, h.extent_eq]
    rfl

theorem ReorderedAll.extent_eq {es fs : List Element} : ReorderedAll es fs → extent fs = extent es
  | .nil => rfl
  | .cons he hes => by
    have hplace := he.place_eq
    simp only [place, Prod.mk.injEq] at hplace
    rw [extent, extent, hplace.1, hplace.2.1, hes.extent_eq]
  | .swap e f es => by
    rw [extent, extent, extent, extent]
    omega
  | .trans h h' => h'.extent_eq.trans h.extent_eq

end

theorem ReorderedAll.map_place {es fs : List Element} :
    ReorderedAll es fs → (fs.map place).Perm (es.map place)
  | .nil => .nil
  | .cons he hes => by
    rw [List.map_cons, List.map_cons, he.place_eq]
    exact hes.map_place.cons _
  | .swap e f es => .swap ..
  | .trans h h' => h'.map_place.trans h.map_place

mutual

theorem Reordered.placesDiffer {e f : Element} : Reordered e f → e.PlacesDiffer → f.PlacesDiffer
  | .register _, h => h
  | .cluster _ hes, h => ⟨hes.map_place.nodup_iff.2 h.1, hes.placesDifferEach h.2⟩

theorem ReorderedAll.placesDifferEach {es fs : List Element} :
    ReorderedAll es fs → PlacesDifferEach es → PlacesDifferEach fs
  | .nil, h => h
  | .cons he hes, h => ⟨he.placesDiffer h.1, hes.placesDifferEach h.2⟩
  | .swap _ _ _, h => ⟨h.2.1, h.1, h.2.2⟩
  | .trans h₁ h₂, h => h₂.placesDifferEach (h₁.placesDifferEach h)

end

/-! ## Sorting -/

/-- Elements of different places have one layout order. -/
theorem sortLevel_eq_of_perm {es fs : List Element} (h : fs.Perm es)
    (hplaces : (es.map place).Nodup) : sortLevel fs = sortLevel es := by
  have hperm : (sortLevel fs).Perm (sortLevel es) :=
    (sortLevel_perm fs).trans (h.trans (sortLevel_perm es).symm)
  refine hperm.eq_of_pairwise (fun a b ha hb hab hba => ?_) (isOrdered_sortLevel fs)
    (isOrdered_sortLevel es)
  have hmem {e : Element} (he : e ∈ sortLevel es) : e ∈ es := (sortLevel_perm es).mem_iff.1 he
  exact List.inj_on_of_nodup_map hplaces (hmem (hperm.mem_iff.1 ha)) (hmem hb)
    (place_eq_of_precedes hab hba)

theorem map_place_sortEach (es : List Element) : (sortEach es).map place = es.map place := by
  rw [sortEach_eq_map, List.map_map]
  exact List.map_congr_left fun e _ => (samePlace_sortWithin e).place_eq

mutual

theorem Reordered.sortWithin_eq {e f : Element} :
    Reordered e f → e.PlacesDiffer → f.sortWithin = e.sortWithin
  | .register _, _ => rfl
  | @Reordered.cluster c es _ hes, h => by
    have hplaces : ((sortEach es).map place).Nodup := by
      rw [map_place_sortEach]
      exact h.1
    rw [sortWithin, sortWithin, sortLevel_eq_of_perm (hes.sortEach_perm h.2) hplaces]

theorem ReorderedAll.sortEach_perm {es fs : List Element} :
    ReorderedAll es fs → PlacesDifferEach es → (sortEach fs).Perm (sortEach es)
  | .nil, _ => .nil
  | .cons he hes, h => by
    rw [sortEach, sortEach, he.sortWithin_eq h.1]
    exact (hes.sortEach_perm h.2).cons _
  | .swap e f es, _ => by
    simp only [sortEach]
    exact .swap ..
  | .trans h₁ h₂, h =>
    (h₂.sortEach_perm (h₁.placesDifferEach h)).trans (h₁.sortEach_perm h)

end

/-- The layout order at every level does not depend on the order before. -/
theorem ReorderedAll.sortAll_eq {es fs : List Element} (h : ReorderedAll es fs)
    (hplaces : HasDistinctPlaces es) : sortAll fs = sortAll es := by
  refine sortLevel_eq_of_perm (h.sortEach_perm hplaces.2) ?_
  rw [map_place_sortEach]
  exact hplaces.1

/-! ## Registers by name -/

/-- The registers have different names, those in clusters included. -/
def HasDistinctNames (es : List Element) : Prop := ((registersAll es).map Register.name).Nodup

instance : DecidablePred HasDistinctNames := fun _ => inferInstanceAs (Decidable (List.Nodup _))

mutual

theorem find?_eq_find?_registers (name : String) : (e : Element) →
    e.find? name = e.registers.find? fun r => r.name == name
  | .register r => by
    rw [find?, registers, List.find?_singleton]
  | .cluster _ es => findIn?_eq_find?_registersAll name es

theorem findIn?_eq_find?_registersAll (name : String) : (es : List Element) →
    findIn? name es = (registersAll es).find? fun r => r.name == name
  | [] => rfl
  | e :: es => by
    rw [findIn?, registersAll, List.find?_append, find?_eq_find?_registers name e,
      findIn?_eq_find?_registersAll name es]

end

/-- In the tree the first register stands in front of the second, which has the same name. -/
def Hides (es : List Element) (t s : Register) : Prop :=
  t.name = s.name ∧ [t, s].Sublist (registersAll es)

/-- Under the name of a register of the tree the register is found, or one that hides it. -/
theorem exists_findIn?_of_mem {es : List Element} {s : Register} (hs : s ∈ registersAll es) :
    ∃ t, findIn? s.name es = some t ∧ (t = s ∨ Hides es t s) := by
  rw [findIn?_eq_find?_registersAll]
  cases hfound : (registersAll es).find? fun r => r.name == s.name with
  | none => simpa using List.find?_eq_none.1 hfound s hs
  | some t =>
    obtain ⟨hname, front, back, hsplit, hfront⟩ := List.find?_eq_some_iff_append.1 hfound
    refine ⟨t, rfl, ?_⟩
    rw [hsplit, List.mem_append, List.mem_cons] at hs
    rcases hs with hs | rfl | hs
    · simpa using hfront s hs
    · exact .inl rfl
    · refine .inr ⟨by simpa using hname, ?_⟩
      rw [hsplit]
      exact ((List.singleton_sublist.2 hs).cons_cons t).trans (List.sublist_append_right ..)

theorem HasDistinctNames.not_hides {es : List Element} (h : HasDistinctNames es) (t s : Register) :
    ¬Hides es t s := by
  rintro ⟨hname, hsublist⟩
  have hnodup : ([t, s].map Register.name).Nodup := h.sublist (hsublist.map _)
  simp [hname] at hnodup

/-- Registers of different names are found in layout order as they were before. -/
theorem HasDistinctNames.findIn?_sortAll {es : List Element} (h : HasDistinctNames es)
    (name : String) : findIn? name (sortAll es) = findIn? name es := by
  rw [findIn?_eq_find?_registersAll, findIn?_eq_find?_registersAll]
  exact find?_key_perm h (registersAll_sortAll es).symm name

mutual

theorem Reordered.registers_perm {e f : Element} :
    Reordered e f → f.registers.Perm e.registers
  | .register r => .refl _
  | .cluster _ hes => hes.registersAll_perm

theorem ReorderedAll.registersAll_perm {es fs : List Element} :
    ReorderedAll es fs → (registersAll fs).Perm (registersAll es)
  | .nil => .nil
  | .cons he hes => he.registers_perm.append hes.registersAll_perm
  | .swap e f es => by
    simp only [registersAll, ← List.append_assoc]
    exact List.perm_append_comm.append_right _
  | .trans h h' => h'.registersAll_perm.trans h.registersAll_perm

end

theorem ReorderedAll.hasDistinctNames {es fs : List Element} (h : ReorderedAll es fs)
    (hnames : HasDistinctNames es) : HasDistinctNames fs :=
  (h.registersAll_perm.map Register.name).nodup_iff.2 hnames

end Element

/-! ## Devices -/

/-- The second peripheral is the first with its registers in any order. -/
structure Peripheral.Reordered (p q : Peripheral) : Prop where
  registers : Element.ReorderedAll p.registers q.registers
  rest : q = { p with registers := q.registers }

/-- The second device is the first with its peripherals, and the registers of each, in any order. -/
structure Device.Reordered (d e : Device) : Prop where
  peripherals : ∃ ps, List.Forall₂ Peripheral.Reordered d.peripherals ps ∧ ps.Perm e.peripherals
  rest : e = { d with peripherals := e.peripherals }

end RegisterMap
