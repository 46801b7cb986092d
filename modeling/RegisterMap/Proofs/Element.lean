import RegisterMap.Proofs.Order

/-!
# Trees of elements

Induction on the tree of an element (`Element.tree_induction`), the elements that are not hidden or
not deleted, and the registers that examples are made of.
-/

namespace RegisterMap

/-- A register without anything special, as examples use it. -/
def Register.plain (name : String) (offset width : Nat) (dim : Option Dim := none) : Register :=
  { name, offset, width, access := .readWrite, resetValue := 0, resetMask := 0, dim }

namespace Element

/-- What holds of registers, and of a cluster when it holds of the elements in it, holds of every
element. -/
@[elab_as_elim]
theorem tree_induction {motive : Element → Prop} (register : ∀ r, motive (.register r))
    (cluster : ∀ c es, (∀ e ∈ es, motive e) → motive (.cluster c es)) (e : Element) : motive e :=
  Element.rec (motive_1 := motive) (motive_2 := fun es => ∀ e ∈ es, motive e) register cluster
    (fun _ he => nomatch he) (fun _ _ ihe ihes => List.forall_mem_cons.2 ⟨ihe, ihes⟩) e

/-- The elements that are not hidden. -/
def visible (es : List Element) : List Element := es.filter (!·.flags.hidden)

theorem not_hidden_of_mem_visible {e : Element} {es : List Element} (h : e ∈ visible es) :
    e.flags.hidden = false := by
  simpa using (List.mem_filter.1 h).2

theorem extent_perm {es fs : List Element} (h : es.Perm fs) : extent es = extent fs := by
  induction h with
  | nil => rfl
  | cons e _ ih => simp only [extent, ih]
  | swap e f es => simp only [extent]; omega
  | trans _ _ ih₁ ih₂ => exact ih₁.trans ih₂

theorem extent_le_iff {es : List Element} {n : Nat} : extent es ≤ n ↔ ∀ e ∈ es, e.fin ≤ n := by
  induction es with
  | nil => simp [extent]
  | cons e es ih => rw [extent, Nat.max_le, ih, List.forall_mem_cons, fin]

mutual

/-- Neither the element nor one in it is deleted. -/
def isIntact : Element → Bool
  | register r => !r.deleted
  | cluster c es => !c.deleted && isIntactAll es

/-- None of the elements is deleted, at any level. -/
def isIntactAll : List Element → Bool
  | [] => true
  | e :: es => e.isIntact && isIntactAll es

end

theorem deleted_of_isIntact {e : Element} (h : e.isIntact = true) : e.deleted = false := by
  cases e with
  | register r =>
    rw [isIntact, Bool.not_eq_true'] at h
    exact h
  | cluster c es =>
    rw [isIntact, Bool.and_eq_true, Bool.not_eq_true'] at h
    exact h.1

mutual

theorem compact_of_isIntact : (e : Element) → e.isIntact = true → e.compact = e
  | .register _, _ => rfl
  | .cluster c es, h => by
    rw [isIntact, Bool.and_eq_true] at h
    rw [compact, compactAll_of_isIntactAll es h.2]

/-- Nothing is taken out of elements of which none is deleted. -/
theorem compactAll_of_isIntactAll :
    (es : List Element) → isIntactAll es = true → compactAll es = es
  | [], _ => rfl
  | e :: es, h => by
    rw [isIntactAll, Bool.and_eq_true] at h
    rw [compactAll, deleted_of_isIntact h.1, if_neg Bool.false_ne_true, compact_of_isIntact e h.1,
      compactAll_of_isIntactAll es h.2]

end

end Element

end RegisterMap
