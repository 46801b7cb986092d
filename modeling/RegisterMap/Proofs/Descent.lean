import RegisterMap.Proofs.Sorting

/-!
# Where registers come from

The registers of a tree are changed and looked up one by one. Folding and grouping give them new
names, offsets and dimensions, but make up none: what a register describes, and what it is derived
from, was there before (`Element.Descends`).
-/

namespace RegisterMap

/-- The register `s` describes what `r` does, from the same source, wherever they lie. -/
structure Register.SameContent (r s : Register) : Prop where
  width_eq : s.width = r.width
  access_eq : s.access = r.access
  resetValue_eq : s.resetValue = r.resetValue
  resetMask_eq : s.resetMask = r.resetMask
  fields_eq : s.fields = r.fields
  derivedFrom_eq : s.derivedFrom = r.derivedFrom

theorem Register.SameContent.refl (r : Register) : r.SameContent r :=
  ⟨rfl, rfl, rfl, rfl, rfl, rfl⟩

theorem Register.SameContent.trans {r s t : Register} (h : r.SameContent s) (h' : s.SameContent t) :
    r.SameContent t where
  width_eq := h'.width_eq.trans h.width_eq
  access_eq := h'.access_eq.trans h.access_eq
  resetValue_eq := h'.resetValue_eq.trans h.resetValue_eq
  resetMask_eq := h'.resetMask_eq.trans h.resetMask_eq
  fields_eq := h'.fields_eq.trans h.fields_eq
  derivedFrom_eq := h'.derivedFrom_eq.trans h.derivedFrom_eq

namespace Element

/-! ## Registers of a tree -/

section Tree

variable {f : Register → Register}

theorem registersAll_append (es fs : List Element) :
    registersAll (es ++ fs) = registersAll es ++ registersAll fs := by
  simp [registersAll_eq_flatMap]

mutual

theorem registers_mapRegisters (f : Register → Register) :
    (e : Element) → (e.mapRegisters f).registers = e.registers.map f
  | register r => rfl
  | cluster c es => by
    rw [mapRegisters, registers, registers]
    exact registersAll_mapRegistersAll f es

/-- The registers of a tree are changed one by one. -/
theorem registersAll_mapRegistersAll (f : Register → Register) :
    (es : List Element) → registersAll (mapRegistersAll f es) = (registersAll es).map f
  | [] => rfl
  | e :: es => by
    rw [mapRegistersAll, registersAll, registersAll, registers_mapRegisters f e,
      registersAll_mapRegistersAll f es, List.map_append]

end

mutual

theorem find?_mapRegisters (hf : ∀ r, (f r).name = r.name) (name : String) :
    (e : Element) → (e.mapRegisters f).find? name = (e.find? name).map f
  | register r => by
    rw [mapRegisters, find?, find?, hf]
    split <;> rfl
  | cluster c es => by
    rw [mapRegisters, find?, find?]
    exact findIn?_mapRegistersAll hf name es

/-- A change of registers that keeps their names goes with looking them up. -/
theorem findIn?_mapRegistersAll (hf : ∀ r, (f r).name = r.name) (name : String) :
    (es : List Element) → findIn? name (mapRegistersAll f es) = (findIn? name es).map f
  | [] => rfl
  | e :: es => by
    rw [mapRegistersAll, findIn?, findIn?, find?_mapRegisters hf name e,
      findIn?_mapRegistersAll hf name es, Option.map_or]

end

theorem findSome?_mapRegistersAll (hf : ∀ r, (f r).name = r.name) (name : String)
    (scopes : List (List Element)) : (scopes.map (mapRegistersAll f)).findSome? (findIn? name) =
      (scopes.findSome? (findIn? name)).map f := by
  induction scopes with
  | nil => rfl
  | cons es scopes ih =>
    rw [List.map_cons, List.findSome?_cons, List.findSome?_cons, findIn?_mapRegistersAll hf]
    cases findIn? name es with
    | none => exact ih
    | some r => rfl

end Tree

/-! ## Descent -/

/-- Each of the second elements has registers only that describe what registers of the first do. -/
def Descends (es fs : List Element) : Prop :=
  ∀ s ∈ registersAll fs, ∃ r ∈ registersAll es, r.SameContent s

variable {es fs gs : List Element}

theorem mem_registersAll_iff {r : Register} :
    r ∈ registersAll es ↔ ∃ e ∈ es, r ∈ e.registers := by
  rw [registersAll_eq_flatMap, List.mem_flatMap]

theorem mem_registersAll_of_mem {r : Register} (h : register r ∈ es) : r ∈ registersAll es :=
  mem_registersAll_iff.2 ⟨_, h, List.mem_singleton_self r⟩

mutual

theorem mem_registers_of_find? {name : String} {r : Register} :
    (e : Element) → e.find? name = some r → r ∈ e.registers
  | .register s, h => by
    rw [find?] at h
    split at h
    · rw [← Option.some.inj h]
      exact List.mem_singleton_self s
    · cases h
  | .cluster _ es, h => mem_registersAll_of_findIn? es h

/-- A register that is found by its name is one of the tree. -/
theorem mem_registersAll_of_findIn? {name : String} {r : Register} :
    (es : List Element) → findIn? name es = some r → r ∈ registersAll es
  | [], h => nomatch h
  | e :: es, h => by
    rw [registersAll]
    rcases Option.or_eq_some_iff.1 h with h | ⟨_, h⟩
    · exact List.mem_append_left _ (mem_registers_of_find? e h)
    · exact List.mem_append_right _ (mem_registersAll_of_findIn? es h)

end

theorem Descends.of_subset (h : registersAll fs ⊆ registersAll es) : Descends es fs :=
  fun s hs => ⟨s, h hs, .refl s⟩

theorem Descends.refl (es : List Element) : Descends es es := .of_subset fun _ h => h

theorem Descends.trans (h : Descends es fs) (h' : Descends fs gs) : Descends es gs := by
  intro t ht
  obtain ⟨s, hs, hst⟩ := h' t ht
  obtain ⟨r, hr, hrs⟩ := h s hs
  exact ⟨r, hr, hrs.trans hst⟩

theorem descends_iff : Descends es fs ↔ ∀ f ∈ fs, Descends es [f] := by
  unfold Descends
  constructor
  · intro h f hf s hs
    rw [registersAll, registersAll, List.append_nil] at hs
    exact h s (mem_registersAll_iff.2 ⟨f, hf, hs⟩)
  · intro h s hs
    obtain ⟨f, hf, hs⟩ := mem_registersAll_iff.1 hs
    exact h f hf s (mem_registersAll_iff.2 ⟨f, List.mem_singleton_self f, hs⟩)

theorem descends_register {r s : Register} (hr : register r ∈ es) (h : r.SameContent s) :
    Descends es [register s] := by
  intro t ht
  cases List.mem_singleton.1 ht
  exact ⟨r, mem_registersAll_of_mem hr, h⟩

/-- What stays in its place descends from itself. -/
theorem descends_of_mem {e : Element} (h : e ∈ es) : Descends es [e] :=
  descends_iff.1 (.refl es) e h

theorem descends_cluster {c : Cluster} : Descends es [cluster c fs] ↔ Descends es fs := by
  unfold Descends
  rw [registersAll, registersAll, List.append_nil, registers]

theorem descends_sortAll (es : List Element) : Descends es (sortAll es) :=
  .of_subset (registersAll_sortAll es).subset

theorem descends_sortWithin (e : Element) : Descends [e] [e.sortWithin] :=
  .of_subset ((registers_sortWithin e).append (.refl [])).subset

theorem descends_compact (e : Element) : Descends [e] [e.compact] :=
  .of_subset ((registers_compact_sublist e).append (.refl [])).subset

end Element

end RegisterMap
