import RegisterMap.Failure

/-!
# Outcomes

A step that changes a state may raise warnings, and may stop before its end. What it changed until
then stays changed.
-/

namespace RegisterMap

/-- Something in a description that was passed over. -/
inductive Warning
  | discardedVector (name : String)
  | unexpectedExtension (tag : String)
  | strideMismatch (peripheral register first : String) (expected found : Nat)
  | clusterMismatch (peripheral member cluster : String)
  | nameConflict (peripheral common : String)
  deriving DecidableEq, Repr

def Warning.message : Warning → String
  | discardedVector name => s!"Discarding predefined vector \"{name}\""
  | unexpectedExtension tag => s!"Unexpected element <{tag}> in <vendorExtensions>"
  | strideMismatch peripheral register first expected found =>
    s!"{peripheral}: {register} <=> {first}, expected offset 0x{Text.hex expected}, " ++
      s!"found 0x{Text.hex found}"
  | clusterMismatch peripheral member cluster =>
    s!"{peripheral}: {member} does not fit cluster {cluster}"
  | nameConflict peripheral common =>
    s!"Peripheral name and register prefix conflict: peripheral \"{peripheral}\" <==> " ++
      s!"prefix \"{common}\""

/-- What a step left behind, what it warned of, and why it stopped, if it did. -/
structure Outcome (σ : Type) where
  state : σ
  warnings : List Warning := []
  failure : Option Failure := none
  deriving DecidableEq, Repr

namespace Outcome

/-- The step that leaves the state as it is. -/
protected def pure (s : σ) : Outcome σ := { state := s }

/-- Goes on from the state of a finished step; a step that stopped is the last. -/
def andThen (o : Outcome σ) (next : σ → Outcome σ) : Outcome σ :=
  match o.failure with
  | some _ => o
  | none => { next o.state with warnings := o.warnings ++ (next o.state).warnings }

@[simp] theorem pure_andThen (s : σ) (next : σ → Outcome σ) :
    (Outcome.pure s).andThen next = next s := rfl

theorem andThen_of_failure {o : Outcome σ} {f : Failure} (h : o.failure = some f)
    (next : σ → Outcome σ) : o.andThen next = o := by
  simp [andThen, h]

/-- A step that succeeds as a whole or changes nothing. -/
def ofExcept (s : σ) : Except Failure σ → Outcome σ
  | .ok s' => { state := s' }
  | .error f => { state := s, failure := some f }

/-- A check of the state. -/
def check (s : σ) : Except Failure Unit → Outcome σ
  | .ok () => { state := s }
  | .error f => { state := s, failure := some f }

/-- The state, or the failure of a step that stopped. -/
def toExcept (o : Outcome σ) : Except Failure σ :=
  match o.failure with
  | some f => .error f
  | none => .ok o.state

@[simp] theorem toExcept_ofExcept (s : σ) (r : Except Failure σ) : (ofExcept s r).toExcept = r := by
  cases r <;> rfl

theorem toExcept_eq_ok_iff {o : Outcome σ} {s : σ} :
    o.toExcept = .ok s ↔ o.failure = none ∧ o.state = s := by
  unfold toExcept
  cases o.failure <;> simp

/-- The outcome seen from a place further out. -/
def within (p : Place) (o : Outcome σ) : Outcome σ :=
  { o with failure := o.failure.map (Failure.within p) }

/-- A step on a part of a larger state. -/
def map (f : σ → τ) (o : Outcome σ) : Outcome τ :=
  { state := f o.state, warnings := o.warnings, failure := o.failure }

end Outcome

end RegisterMap
