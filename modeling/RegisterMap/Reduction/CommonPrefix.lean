import RegisterMap.Peripheral

/-!
# Common name parts

A part that all register names of a peripheral start with is moved to the peripheral, up to its
first underscore if there is more behind. Names stay distinct and keep their order.
-/

namespace RegisterMap

namespace CommonPrefix

/-- The longest text that both start with. -/
def shared : List Char → List Char → List Char
  | a :: as, b :: bs => if a = b then a :: shared as bs else []
  | _, _ => []

theorem shared_isPrefix_left (a b : List Char) : shared a b <+: a := by
  fun_induction shared a b with
  | case1 a as bs ih => simpa using ih
  | case2 => exact List.nil_prefix
  | case3 => exact List.nil_prefix

theorem shared_comm (a b : List Char) : shared a b = shared b a := by
  fun_induction shared a b with
  | case1 a as bs ih => simp [shared, ih]
  | case2 a as b bs h => simp [shared, Ne.symm h]
  | case3 a b h =>
    unfold shared
    split
    · exact absurd rfl (h _ _ _ _ rfl)
    · rfl

/-- The longest text that all names start with. -/
def sharedByAll : List (List Char) → List Char
  | [] => []
  | n :: ns => ns.foldl shared n

theorem foldl_shared_isPrefix (n : List Char) (ns : List (List Char)) :
    ns.foldl shared n <+: n := by
  induction ns generalizing n with
  | nil => exact List.prefix_rfl
  | cons m ms ih => exact (ih _).trans (shared_isPrefix_left n m)

theorem sharedByAll_isPrefix {n : List Char} {ns : List (List Char)} (h : n ∈ ns) :
    sharedByAll ns <+: n := by
  cases ns with
  | nil => cases h
  | cons m ms =>
    simp only [sharedByAll]
    induction ms generalizing m with
    | nil =>
      rcases List.mem_singleton.1 h with rfl
      exact List.prefix_rfl
    | cons k ks ih =>
      rcases List.mem_cons.1 h with rfl | h
      · exact foldl_shared_isPrefix _ (k :: ks)
      rcases List.mem_cons.1 h with rfl | h
      · exact (foldl_shared_isPrefix _ ks).trans (shared_comm m n ▸ shared_isPrefix_left n m)
      · exact ih _ (List.mem_cons_of_mem _ h)

/-- The text up to its first underscore, if that is neither its first nor its last character. -/
def cutAtUnderscore (s : List Char) : List Char :=
  let head := s.takeWhile (· != '_')
  if head.isEmpty || s.length ≤ head.length + 1 then s else head ++ ['_']

/-- What the names of registers have in common. -/
def ofNames (names : List (List Char)) : List Char := cutAtUnderscore (sharedByAll names)

/-- A character that a name may start with. -/
def startsName (c : Char) : Bool := c.isAlpha || c == '_'

/-- The text has more than one byte, and what is left of every name without it is a name. -/
def isRemovable (common : List Char) (names : List (List Char)) : Bool :=
  1 < (String.ofList common).utf8ByteSize &&
    names.all fun n => (n.drop common.length).head?.any startsName

/-- The text without the underscores it ends with. -/
def trimUnderscores (s : List Char) : List Char := (s.reverse.dropWhile (· == '_')).reverse

end CommonPrefix

/-- A peripheral on its way through the reductions of a device, with the names of those whose
registers turned out to be named otherwise than themselves. -/
structure Workpiece where
  peripheral : Peripheral
  conflicts : List String := []
  deriving DecidableEq, Repr

/-- A step on the peripheral alone. -/
def Workpiece.step (w : Workpiece) (f : Peripheral → Outcome Peripheral) : Outcome Workpiece :=
  (f w.peripheral).map fun p => { w with peripheral := p }

/-- The names in conflict with one more, and whether it is new. -/
def addConflict (name : String) (conflicts : List String) : Bool × List String :=
  if conflicts.contains name then (false, conflicts) else (true, conflicts ++ [name])

/-- The peripheral with the elements named without their common part. -/
def Peripheral.takePrefix (p : Peripheral) (common : List Char) : Peripheral :=
  { p with
    registers := p.registers.map fun e =>
      e.withName (.ofList (e.name.toList.drop common.length))
    prependToName := some (.ofList (CommonPrefix.trimUnderscores common)) }

/-- Moves the common part of the register names to the peripheral, unless it has one already. A
peripheral with another name is told of once, and is described by its name at least. -/
def Workpiece.extractPrefix (w : Workpiece) : Outcome Workpiece :=
  let p := w.peripheral
  let names := p.registers.map fun e => e.name.toList
  let common := CommonPrefix.ofNames names
  if p.prependToName.any (!·.isEmpty) || !CommonPrefix.isRemovable common names then .pure w
  else
    let q := p.takePrefix common
    let name := String.ofList (CommonPrefix.trimUnderscores common)
    if p.name = name then .pure { w with peripheral := q }
    else
      let (isNew, conflicts) := addConflict p.name w.conflicts
      { state :=
          { peripheral :=
              { q with description := if p.description.isEmpty then p.name else p.description }
            conflicts }
        warnings := if isNew then [.nameConflict p.name name] else [] }

end RegisterMap
