import RegisterMap.Failure

/-!
# Combinations of access types

Access types by their capabilities, and what is wrong where no access type has them.
-/

namespace RegisterMap.Access

/-- The access type with exactly these capabilities. -/
def ofMask (m : Nat) : Except Failure Access :=
  match ofMask? m with
  | some a => .ok a
  | none => fail (.accessMask m)

/-- What both allow. -/
def meet (a b : Access) : Except Failure Access :=
  match meet? a b with
  | some c => .ok c
  | none => fail (.accessCombination a b)

/-- What either allows. -/
def join (a b : Access) : Except Failure Access :=
  match join? a b with
  | some c => .ok c
  | none => fail (.accessCombination a b)

theorem ofMask_mask (a : Access) : ofMask a.mask = .ok a := by
  simp [ofMask, ofMask?_mask]

end RegisterMap.Access
