import RegisterMap.Proofs.Descent
import RegisterMap.Proofs.Layout.Leaves

/-!
# Places of registers

A register of a tree stands below clusters. A layout declares it below the same clusters, unless it
or one of them is hidden or it is an array without elements that would need members of their own
(`Layout.holds_iff`). Leaves are looked up one level at a time; clusters are entered by induction on
the clusters above the register.
-/

namespace RegisterMap

/-- An array of registers that is not one member and has no elements to declare. -/
def Register.HasNoMember (r : Register) : Prop :=
  ∃ d, r.dim = some d ∧ r.isDeclaredAsArray = false ∧ d.count = 0

namespace Element

/-- The register is among the elements, below the clusters, the outermost one first. -/
inductive Holds : List Element → List Cluster → Register → Prop
  | here {es : List Element} {r : Register} (mem : register r ∈ es) : Holds es [] r
  | inside {es fs : List Element} {c : Cluster} {cs : List Cluster} {r : Register}
      (mem : cluster c fs ∈ es) (child : Holds fs cs r) : Holds es (c :: cs) r

theorem exists_holds_of_mem_registers {r : Register} (e : Element) : ∀ es : List Element, e ∈ es →
    r ∈ e.registers → ∃ cs, Holds es cs r := by
  induction e using tree_induction with
  | register s =>
    intro es he hr
    cases List.mem_singleton.1 hr
    exact ⟨[], .here he⟩
  | cluster c fs ih =>
    intro es he hr
    obtain ⟨f, hf, hr⟩ := mem_registersAll_iff.1 hr
    obtain ⟨cs, hcs⟩ := ih f hf fs hf hr
    exact ⟨c :: cs, .inside he hcs⟩

/-- The registers of a tree are those at any place in it. -/
theorem mem_registersAll_iff_holds {es : List Element} {r : Register} :
    r ∈ registersAll es ↔ ∃ cs, Holds es cs r := by
  constructor
  · intro hr
    obtain ⟨e, he, hr⟩ := mem_registersAll_iff.1 hr
    exact exists_holds_of_mem_registers e es he hr
  · rintro ⟨cs, h⟩
    induction h with
    | here mem => exact mem_registersAll_of_mem mem
    | inside mem _ ih => exact mem_registersAll_iff.2 ⟨_, mem, ih⟩

end Element

namespace Decl

/-- The register, or each element of it, is among the leaves of the declarations, below the
clusters. -/
inductive Holds : List Decl → List Cluster → Register → Prop
  | register {ds : List Decl} {r : Register} {o : Nat}
      (whole : r.dim = none ∨ r.isDeclaredAsArray = true) (mem : register r o ∈ leavesAll ds) :
      Holds ds [] r
  | elements {ds : List Decl} {r : Register} {d : Dim} (dim_eq : r.dim = some d)
      (apart : r.isDeclaredAsArray = false) (some_element : 0 < d.count)
      (mem : ∀ i < d.count, ∃ o, element r i o ∈ leavesAll ds) : Holds ds [] r
  | inside {ds members : List Decl} {c : Cluster} {cs : List Cluster} {r : Register} {o size : Nat}
      (mem : cluster c o size members ∈ leavesAll ds) (child : Holds members cs r) :
      Holds ds (c :: cs) r

end Decl

namespace Element

variable {es : List Element} {ds ls : List Decl} {cs : List Cluster} {r : Register}

/-- A register among the leaves is one of the elements. -/
theorem LeavesAll.register_of_leaf (h : LeavesAll es ls) {o : Nat} (hl : .register r o ∈ ls) :
    .register r ∈ es ∧ r.flags.hidden = false := by
  obtain ⟨e, he, hvisible, here, hhere, hl⟩ := h.exists_of_leaf hl
  cases hhere with
  | register =>
    cases List.mem_singleton.1 hl
    exact ⟨he, hvisible⟩
  | array =>
    obtain ⟨i, -, h⟩ := List.mem_map.1 hl
    cases h
  | cluster => cases List.mem_singleton.1 hl

/-- An array with an element among the leaves is one of the elements. -/
theorem LeavesAll.array_of_leaf (h : LeavesAll es ls) {i o : Nat} (hl : .element r i o ∈ ls) :
    .register r ∈ es ∧ r.flags.hidden = false := by
  obtain ⟨e, he, hvisible, here, hhere, hl⟩ := h.exists_of_leaf hl
  cases hhere with
  | register => cases List.mem_singleton.1 hl
  | array =>
    obtain ⟨j, -, h⟩ := List.mem_map.1 hl
    cases h
    exact ⟨he, hvisible⟩
  | cluster => cases List.mem_singleton.1 hl

/-- A cluster among the leaves is one of the elements, and has their leaves. -/
theorem LeavesAll.cluster_of_leaf (h : LeavesAll es ls) {c : Cluster} {o size : Nat}
    {members : List Decl} (hl : .cluster c o size members ∈ ls) :
    c.flags.hidden = false ∧ ∃ fs inner, .cluster c fs ∈ es ∧ LeavesAll fs inner ∧
      (Decl.leavesAll members).Perm inner := by
  obtain ⟨e, he, hvisible, here, hhere, hl⟩ := h.exists_of_leaf hl
  cases hhere with
  | register => cases List.mem_singleton.1 hl
  | array =>
    obtain ⟨i, -, h⟩ := List.mem_map.1 hl
    cases h
  | cluster hchildren hperm =>
    cases List.mem_singleton.1 hl
    exact ⟨hvisible, _, _, he, hchildren, hperm⟩

/-- Declarations with the leaves of elements hold what these show. -/
theorem LeavesAll.holds_iff (h : LeavesAll es ls) (hperm : (Decl.leavesAll ds).Perm ls) :
    Decl.Holds ds cs r ↔ Holds es cs r ∧ (∀ c ∈ cs, c.flags.hidden = false) ∧
      r.flags.hidden = false ∧ ¬r.HasNoMember := by
  induction cs generalizing es ds ls with
  | nil =>
    constructor
    · intro hholds
      cases hholds with
      | register hwhole mem =>
        obtain ⟨he, hvisible⟩ := h.register_of_leaf (hperm.mem_iff.1 mem)
        refine ⟨.here he, List.forall_mem_nil _, hvisible, fun ⟨d, hd, hapart, _⟩ => ?_⟩
        rcases hwhole with hnone | hwhole
        · rw [hd] at hnone
          cases hnone
        · rw [hapart] at hwhole
          cases hwhole
      | elements hd _ hsome mem =>
        obtain ⟨o, hmem⟩ := mem 0 hsome
        obtain ⟨he, hvisible⟩ := h.array_of_leaf (hperm.mem_iff.1 hmem)
        refine ⟨.here he, List.forall_mem_nil _, hvisible, fun ⟨d, hd', _, hnone⟩ => ?_⟩
        rw [hd] at hd'
        cases hd'
        exact Nat.ne_of_gt hsome hnone
    · rintro ⟨hholds, -, hvisible, hmember⟩
      cases hholds with
      | here he =>
        obtain ⟨here, hhere, hsub⟩ := h.exists_of_mem he hvisible
        have hleaf : ∀ l ∈ here, l ∈ Decl.leavesAll ds := fun l hl => hperm.mem_iff.2 (hsub l hl)
        cases hhere with
        | register hwhole => exact .register hwhole (hleaf _ (List.mem_singleton_self _))
        | array hd hapart =>
          have hsome := Nat.pos_of_ne_zero fun hnone => hmember ⟨_, hd, hapart, hnone⟩
          exact .elements hd hapart hsome fun i hi =>
            ⟨_, hleaf _ (List.mem_map_of_mem (List.mem_range.2 hi))⟩
  | cons c cs ih =>
    rw [List.forall_mem_cons]
    constructor
    · intro hholds
      cases hholds with
      | inside mem child =>
        obtain ⟨hvisible, fs, inner, he, hchildren, hmembers⟩ :=
          h.cluster_of_leaf (hperm.mem_iff.1 mem)
        obtain ⟨hchild, hcs, hr⟩ := (ih hchildren hmembers).1 child
        exact ⟨.inside he hchild, ⟨hvisible, hcs⟩, hr⟩
    · rintro ⟨hholds, ⟨hvisible, hcs⟩, hr⟩
      cases hholds with
      | inside he child =>
        obtain ⟨here, hhere, hsub⟩ := h.exists_of_mem he hvisible
        cases hhere with
        | cluster hchildren hmembers =>
          exact .inside (hperm.mem_iff.2 (hsub _ (List.mem_singleton_self _)))
            ((ih hchildren hmembers).2 ⟨child, hcs, hr⟩)

end Element

/-- A layout declares a register, or each element of it, below the clusters above it, exactly if
neither it nor one of them is hidden and it is no array without members. -/
theorem Layout.holds_iff {es : List Element} {ds : List Decl} {cs : List Cluster} {r : Register}
    (h : layout es = .ok ds) : Decl.Holds ds cs r ↔ Element.Holds es cs r ∧
      (∀ c ∈ cs, c.flags.hidden = false) ∧ r.flags.hidden = false ∧ ¬r.HasNoMember := by
  obtain ⟨ls, hls, hperm⟩ := leavesAll_of_layout h fun e _ => leaves_of_declare e
  exact hls.holds_iff hperm

end RegisterMap
