import Mathlib.Data.List.Perm.Basic
import RegisterMap.Proofs.Element

/-!
# Register instances

The single words that a tree of elements stands for, with every array of registers and clusters
written out: `Element.instancesAll`. Neither the order of the elements nor sorting them at every
level changes more than their order (`instancesAll_sortAll`).
-/

namespace RegisterMap

/-- One word of a register, with its place in the array if the register is one. -/
structure Instance where
  address : Nat
  register : Register
  index : Nat

namespace Dim

/-- The number of elements, one when there is no array. -/
def countOf : Option Dim → Nat
  | none => 1
  | some d => d.count

/-- The way from one element to the next. -/
def strideOf : Option Dim → Nat
  | none => 0
  | some d => d.stride

end Dim

namespace Element

mutual

/-- The words of an element whose owner lies at an address. -/
def instances (base : Nat) : Element → List Instance
  | register r =>
    (List.range (Dim.countOf r.dim)).map fun i =>
      ⟨base + r.offset + i * Dim.strideOf r.dim, r, i⟩
  | cluster c es =>
    (List.range (Dim.countOf c.dim)).flatMap fun i =>
      instancesAll (base + c.offset + i * Dim.strideOf c.dim) es

/-- The words of elements whose owner lies at an address. -/
def instancesAll (base : Nat) : List Element → List Instance
  | [] => []
  | e :: es => e.instances base ++ instancesAll base es

end

theorem instancesAll_eq_flatMap (base : Nat) (es : List Element) :
    instancesAll base es = es.flatMap (instances base) := by
  induction es with
  | nil => rfl
  | cons e es ih => rw [instancesAll, ih, List.flatMap_cons]

theorem instancesAll_append (base : Nat) (es fs : List Element) :
    instancesAll base (es ++ fs) = instancesAll base es ++ instancesAll base fs := by
  simp only [instancesAll_eq_flatMap, List.flatMap_append]

theorem instancesAll_perm (base : Nat) {es fs : List Element} (h : es.Perm fs) :
    (instancesAll base es).Perm (instancesAll base fs) := by
  simp only [instancesAll_eq_flatMap]
  exact h.flatMap_right _

theorem instances_sortWithin (e : Element) :
    ∀ base, (e.sortWithin.instances base).Perm (e.instances base) := by
  induction e using tree_induction with
  | register r => exact fun _ => .refl _
  | cluster c es ih =>
    intro base
    rw [sortWithin, instances, instances]
    refine List.Perm.flatMap_left _ fun i _ => (instancesAll_perm _ (sortLevel_perm _)).trans ?_
    rw [sortEach_eq_map, instancesAll_eq_flatMap, instancesAll_eq_flatMap, List.flatMap_map]
    exact List.Perm.flatMap_left _ fun e he => ih e he _

/-- Sorting the tree at every level only moves the words. -/
theorem instancesAll_sortAll (base : Nat) (es : List Element) :
    (instancesAll base (sortAll es)).Perm (instancesAll base es) := by
  refine (instancesAll_perm _ (sortLevel_perm _)).trans ?_
  rw [sortEach_eq_map, instancesAll_eq_flatMap, instancesAll_eq_flatMap, List.flatMap_map]
  exact List.Perm.flatMap_left _ fun e _ => instances_sortWithin e _

end Element

end RegisterMap
