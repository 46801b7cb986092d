import Mathlib.Data.List.Forall2
import RegisterMap.Outcome

/-!
# Steps that succeed

What is known of the parts when a composed step succeeds: `bind_eq_ok` for two steps one after the
other, `mapM_eq_ok_iff` for one step for each element of a list, `forM_eq_ok_iff` for one check for
each element, `Outcome.toExcept_andThen` for steps that may stop halfway.
-/

namespace RegisterMap

variable {ε α β : Type}

theorem bind_eq_ok {x : Except ε α} {f : α → Except ε β} {b : β} :
    (x >>= f) = .ok b ↔ ∃ a, x = .ok a ∧ f a = .ok b := by
  cases x <;> simp [bind, Except.bind]

theorem mapM_eq_ok_iff {f : α → Except ε β} {as : List α} {bs : List β} :
    as.mapM f = .ok bs ↔ List.Forall₂ (fun a b => f a = .ok b) as bs := by
  induction as generalizing bs with
  | nil => cases bs <;> simp [pure, Except.pure]
  | cons a as ih =>
    rw [List.mapM_cons, bind_eq_ok]
    simp only [bind_eq_ok, ih]
    constructor
    · rintro ⟨b, hb, bs', hbs, h⟩
      cases h
      exact .cons hb hbs
    · intro h
      cases h with
      | cons hb hbs => exact ⟨_, hb, _, hbs, rfl⟩

/-- Of one step for each element of a list, the first that fails decides the failure. -/
theorem exists_mem_of_mapM_eq_error {f : α → Except ε β} {as : List α} {e : ε}
    (h : as.mapM f = .error e) : ∃ a ∈ as, f a = .error e := by
  induction as with
  | nil => cases h
  | cons a as ih =>
    rw [List.mapM_cons] at h
    cases ha : f a with
    | error e' =>
      rw [ha] at h
      cases h
      exact ⟨a, List.mem_cons_self, ha⟩
    | ok b =>
      cases has : as.mapM f with
      | error e' =>
        rw [ha, has] at h
        cases h
        obtain ⟨a', ha', hfail⟩ := ih has
        exact ⟨a', List.mem_cons_of_mem _ ha', hfail⟩
      | ok bs =>
        rw [ha, has] at h
        cases h

/-- A step that goes with a translation of what it is applied to and of what it gives does so for
each element of a list. -/
theorem mapM_map_of_comm {γ δ : Type} {f : α → γ} {g : γ → Except ε δ} {h : α → Except ε β}
    (k : β → δ) {as : List α} (hcomm : ∀ a ∈ as, g (f a) = (h a).map k) :
    (as.map f).mapM g = (as.mapM h).map (List.map k) := by
  induction as with
  | nil => rfl
  | cons a as ih =>
    obtain ⟨ha, has⟩ := List.forall_mem_cons.1 hcomm
    rw [List.map_cons, List.mapM_cons, List.mapM_cons, ha, ih has]
    cases h a with
    | error e => rfl
    | ok b => cases as.mapM h <;> rfl

theorem forM_eq_ok_iff {f : α → Except ε Unit} {as : List α} :
    as.forM f = .ok () ↔ ∀ a ∈ as, f a = .ok () := by
  induction as with
  | nil => simp [pure, Except.pure]
  | cons a as ih =>
    rw [List.forM_eq_forM, List.forM_cons, bind_eq_ok, List.forall_mem_cons, ← ih]
    exact ⟨fun ⟨_, ha, has⟩ => ⟨ha, has⟩, fun ⟨ha, has⟩ => ⟨_, ha, has⟩⟩

theorem eq_ok_of_toOption {x : Except ε α} {a : α} (h : x.toOption = some a) : x = .ok a := by
  cases x with
  | error e => cases h
  | ok b => rw [Option.some.inj h]

theorem discard_eq_ok_iff {x : Except ε α} : discard x = .ok () ↔ ∃ a, x = .ok a := by
  cases x <;> simp [discard, Functor.discard, Functor.mapConst, Except.map]

/-- What one list is made of, element by element, accounts for each element of the other. -/
theorem exists_mem_of_forall₂ {R : α → β → Prop} {as : List α} {bs : List β}
    (h : List.Forall₂ R as bs) {b : β} (hb : b ∈ bs) : ∃ a ∈ as, R a b := by
  induction h with
  | nil => cases hb
  | cons hr _ ih =>
    rcases List.mem_cons.1 hb with rfl | hb
    · exact ⟨_, List.mem_cons_self, hr⟩
    · obtain ⟨a, ha, hr⟩ := ih hb
      exact ⟨a, List.mem_cons_of_mem _ ha, hr⟩

theorem forall₂_imp_of_mem {R S : α → β → Prop} {as : List α} {bs : List β}
    (h : List.Forall₂ R as bs) (himp : ∀ a ∈ as, ∀ b ∈ bs, R a b → S a b) :
    List.Forall₂ S as bs := by
  refine List.forall₂_iff_zip.2 ⟨h.length_eq, fun hmem => ?_⟩
  obtain ⟨ha, hb⟩ := List.of_mem_zip hmem
  exact himp _ ha _ hb (List.forall₂_zip h hmem)

theorem map_eq_map_of_forall₂ {γ : Type} {f : α → γ} {g : β → γ} {as : List α} {bs : List β}
    (h : List.Forall₂ (fun a b => f a = g b) as bs) : as.map f = bs.map g := by
  rwa [← List.forall₂_eq_eq_eq, List.forall₂_map_left_iff, List.forall₂_map_right_iff]

theorem forall₂_trans {γ : Type} {R : α → β → Prop} {S : β → γ → Prop} {T : α → γ → Prop}
    {as : List α} {bs : List β} {cs : List γ} (h : ∀ a ∈ as, ∀ b c, R a b → S b c → T a c)
    (hab : List.Forall₂ R as bs) (hbc : List.Forall₂ S bs cs) : List.Forall₂ T as cs := by
  induction hab generalizing cs with
  | nil =>
    cases hbc
    exact .nil
  | cons hr _ ih =>
    obtain ⟨hhead, htail⟩ := List.forall_mem_cons.1 h
    cases hbc with
    | cons hs hbc => exact .cons (hhead _ _ hr hs) (ih htail hbc)

namespace Outcome

variable {σ τ : Type}

theorem toExcept_andThen (o : Outcome σ) (next : σ → Outcome σ) :
    (o.andThen next).toExcept = o.toExcept >>= fun s => (next s).toExcept := by
  cases h : o.failure <;> simp [andThen, toExcept, h, bind, Except.bind]

theorem map_ok {f : σ → τ} {o : Outcome σ} {t : τ} (h : (o.map f).toExcept = .ok t) :
    ∃ s, o.toExcept = .ok s ∧ f s = t := by
  obtain ⟨hnone, hs⟩ := toExcept_eq_ok_iff.1 h
  exact ⟨o.state, toExcept_eq_ok_iff.2 ⟨hnone, rfl⟩, hs⟩

theorem check_ok {s t : σ} {r : Except Failure Unit} (h : (check s r).toExcept = .ok t) :
    r = .ok () ∧ t = s := by
  cases r with
  | error f => cases h
  | ok => exact ⟨rfl, (Except.ok.inj h).symm⟩

theorem within_ok {p : Place} {o : Outcome σ} {s : σ} (h : (o.within p).toExcept = .ok s) :
    o.toExcept = .ok s := by
  obtain ⟨hnone, hs⟩ := toExcept_eq_ok_iff.1 h
  exact toExcept_eq_ok_iff.2 ⟨Option.map_eq_none_iff.1 hnone, hs⟩

/-- Steps for each element of a list, after a first one. -/
theorem toExcept_foldl_andThen (step : σ → α → Outcome σ) (o : Outcome σ) (as : List α) :
    (as.foldl (fun (o : Outcome σ) a => o.andThen fun s => step s a) o).toExcept =
      o.toExcept >>= fun s => (as.foldl
        (fun (o : Outcome σ) a => o.andThen fun s => step s a) (Outcome.pure s)).toExcept := by
  induction as generalizing o with
  | nil =>
    obtain ⟨s, ws, f⟩ := o
    cases f <;> rfl
  | cons a as ih =>
    simp only [List.foldl_cons]
    rw [ih, toExcept_andThen, bind_assoc]
    congr 1
    funext s
    rw [ih, pure_andThen]

end Outcome

end RegisterMap
