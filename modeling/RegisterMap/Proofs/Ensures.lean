import RegisterMap.Proofs.Success

/-!
# What results have in common

`Ensures x P` says that whatever the computation `x` gives has the property `P`; a failure gives
nothing. One rule for each way to put computations together, so that a reader which goes through the
parts of a document is followed part by part. `Agree R x y` says that two computations fail alike
or give results that `R` relates.
-/

namespace RegisterMap

/-- Whatever the computation gives has the property. -/
def Ensures {ε α : Type} (x : Except ε α) (P : α → Prop) : Prop := ∀ a, x = .ok a → P a

namespace Ensures

variable {ε α β σ : Type} {P Q : α → Prop} {x : Except ε α}

theorem ok {a : α} (h : P a) : Ensures (.ok a : Except ε α) P := by
  intro b hb
  cases hb
  exact h

theorem fail {c : Cause} {P : α → Prop} : Ensures (RegisterMap.fail c : Except Failure α) P := nofun

theorem fail_bind {c : Cause} {f : α → Except Failure β} {P : β → Prop} :
    Ensures (RegisterMap.fail c >>= f) P := nofun

theorem of_failure {o : Outcome σ} {f : Failure} {P : σ → Prop} (h : o.failure = some f) :
    Ensures o.toExcept P := by
  intro s hs
  rw [(Outcome.toExcept_eq_ok_iff.1 hs).1] at h
  cases h

theorem of_state {o : Outcome σ} {P : σ → Prop} (h : P o.state) : Ensures o.toExcept P :=
  fun _ hs => (Outcome.toExcept_eq_ok_iff.1 hs).2 ▸ h

theorem trivial (x : Except ε α) : Ensures x fun _ => True := fun _ _ => True.intro

theorem mono (h : Ensures x P) (hPQ : ∀ a, P a → Q a) : Ensures x Q := fun a ha => hPQ a (h a ha)

theorem and (h : Ensures x P) (h' : Ensures x Q) : Ensures x fun a => P a ∧ Q a :=
  fun a ha => ⟨h a ha, h' a ha⟩

theorem bind {f : α → Except ε β} {R : β → Prop} (hx : Ensures x P)
    (hf : ∀ a, P a → Ensures (f a) R) : Ensures (x >>= f) R := by
  intro b hb
  obtain ⟨a, ha, hb⟩ := bind_eq_ok.1 hb
  exact hf a (hx a ha) b hb

/-- Nothing is known of the first of two computations. -/
theorem seq {f : α → Except ε β} {R : β → Prop} (hf : ∀ a, Ensures (f a) R) :
    Ensures (x >>= f) R :=
  (trivial x).bind fun a _ => hf a

theorem within {place : Place} {x : Except Failure α} {P : α → Prop} (h : Ensures x P) :
    Ensures (RegisterMap.within place x) P :=
  fun a ha => h a (within_eq_ok.1 ha)

/-- What every step keeps holds at the end. -/
theorem foldlM {I : σ → Prop} {step : σ → α → Except ε σ} {s : σ} (as : List α) (hs : I s)
    (hstep : ∀ s a, I s → Ensures (step s a) I) : Ensures (as.foldlM step s) I := by
  induction as generalizing s with
  | nil => exact ok hs
  | cons a as ih =>
    rw [List.foldlM_cons]
    exact (hstep s a hs).bind fun _ => ih

/-- What no step changes is the same in the end. -/
theorem foldlM_observe {γ : Type} (observe : σ → γ) {step : σ → α → Except ε σ} (as : List α)
    (s : σ) (hstep : ∀ s a, Ensures (step s a) fun t => observe t = observe s) :
    Ensures (as.foldlM step s) fun t => observe t = observe s :=
  .foldlM (I := fun t => observe t = observe s) as rfl
    fun t a ht => (hstep t a).mono fun _ h => h.trans ht

/-- What every step keeps holds at the end of steps that may stop halfway. -/
theorem foldl_andThen {I : σ → Prop} {step : σ → α → Outcome σ} {s : σ} (as : List α) (hs : I s)
    (hstep : ∀ s a, I s → Ensures (step s a).toExcept I) :
    Ensures (as.foldl (fun (o : Outcome σ) a => o.andThen fun s => step s a)
      (Outcome.pure s)).toExcept I := by
  induction as generalizing s with
  | nil => exact ok hs
  | cons a as ih =>
    rw [List.foldl_cons, Outcome.pure_andThen, Outcome.toExcept_foldl_andThen]
    exact (hstep s a hs).bind fun _ => ih

end Ensures

/-- The computations fail alike, or what they give is related. -/
inductive Agree {ε α β : Type} (R : α → β → Prop) : Except ε α → Except ε β → Prop
  | ok {a : α} {b : β} (h : R a b) : Agree R (.ok a) (.ok b)
  | error (e : ε) : Agree R (.error e) (.error e)

namespace Agree

variable {ε α β : Type} {R : α → β → Prop} {x : Except ε α} {y : Except ε β}

theorem eq {x y : Except ε α} (h : Agree Eq x y) : x = y := by
  cases h with
  | ok h => rw [h]
  | error e => rfl

theorem exists_of_eq_ok {a : α} (h : Agree R x y) (hx : x = .ok a) : ∃ b, y = .ok b ∧ R a b := by
  cases h with
  | ok h =>
    cases hx
    exact ⟨_, rfl, h⟩
  | error e => cases hx

/-- A computation agrees with itself where the relation holds of what it gives. -/
theorem of_ensures {R : α → α → Prop} {x : Except ε α} (h : Ensures x fun a => R a a) :
    Agree R x x := by
  cases x with
  | error e => exact .error e
  | ok a => exact .ok (h a rfl)

/-- Computations that begin alike agree when what follows does. -/
theorem bind {γ δ : Type} {S : γ → δ → Prop} {f : α → Except ε γ} {g : β → Except ε δ}
    (h : Agree R x y) (hfg : ∀ a b, x = .ok a → y = .ok b → R a b → Agree S (f a) (g b)) :
    Agree S (x >>= f) (y >>= g) := by
  cases h with
  | ok h => exact hfg _ _ rfl rfl h
  | error e => exact .error e

theorem within {place : Place} {x : Except Failure α} {y : Except Failure β} (h : Agree R x y) :
    Agree R (RegisterMap.within place x) (RegisterMap.within place y) := by
  cases h with
  | ok h => exact .ok h
  | error e => exact .error _

end Agree

end RegisterMap
