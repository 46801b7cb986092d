import Mathlib.Data.List.Induction
import RegisterMap.Field

/-!
# Enumerations of a field in order

However enumerations are added to a field, the default stands last, the others stand in front of it
as they came, and a second default is refused (`Field.attemptAll_enumerations`). Which enumeration
describes a value thus depends on the order of additions alone. The state between two additions is
the list `defaultLast` of those tried so far (`Field.addEnumeration_defaultLast`).
-/

namespace RegisterMap

namespace Field

/-- The field after an attempt to add an enumeration, which stays as it is if that fails. -/
def attempt (f : Field) (e : Enumeration) : Field :=
  match f.addEnumeration e with
  | .ok g => g
  | .error _ => f

/-- The field after attempts to add enumerations one after another. -/
def attemptAll (f : Field) (es : List Enumeration) : Field := es.foldl attempt f

/-- The enumerations that are no defaults, and the first default behind them if there is one. -/
def defaultLast (es : List Enumeration) : List Enumeration :=
  es.filter (!·.isDefault) ++ (es.find? Enumeration.isDefault).toList

variable {f : Field} {e : Enumeration} {es : List Enumeration}

/-! ## The default behind the others -/

theorem any_isDefault_defaultLast (es : List Enumeration) :
    (defaultLast es).any Enumeration.isDefault = es.any Enumeration.isDefault := by
  rw [defaultLast, List.any_append, List.any_filter]
  cases h : es.find? Enumeration.isDefault with
  | none =>
    have hnone : es.any Enumeration.isDefault = false := by simpa using h
    rw [hnone]
    simp
  | some d =>
    have hsome : es.any Enumeration.isDefault = true :=
      List.any_eq_true.2 ⟨d, List.mem_of_find?_eq_some h, List.find?_some h⟩
    rw [hsome]
    simp [List.find?_some h]

/-- An enumeration that is no default goes behind the others, in front of the default. -/
theorem insertOrdered_defaultLast (he : e.isDefault = false) (es : List Enumeration) :
    insertOrdered e (defaultLast es) = defaultLast (es ++ [e]) := by
  have hothers : ∀ x ∈ es.filter (!·.isDefault), (!x.isDefault) = true :=
    fun x hx => (List.mem_filter.1 hx).2
  have hlast : ∀ d ∈ (es.find? Enumeration.isDefault).toList, d.isDefault = true :=
    fun d hd => List.find?_some (Option.mem_toList.1 hd)
  have htake : (es.find? Enumeration.isDefault).toList.takeWhile (!·.isDefault) = [] ∧
      (es.find? Enumeration.isDefault).toList.dropWhile (!·.isDefault) =
        (es.find? Enumeration.isDefault).toList := by
    generalize (es.find? Enumeration.isDefault).toList = ds at hlast
    cases ds with
    | nil => exact ⟨rfl, rfl⟩
    | cons d ds => simp [hlast d List.mem_cons_self]
  rw [insertOrdered, defaultLast, List.takeWhile_append_of_pos hothers,
    List.dropWhile_append_of_pos hothers, htake.1, htake.2]
  simp [defaultLast, he]

theorem defaultLast_concat_of_none (he : e.isDefault = true)
    (hnone : es.any Enumeration.isDefault = false) :
    defaultLast (es ++ [e]) = defaultLast es ++ [e] := by
  have hfind : es.find? Enumeration.isDefault = none := by simpa using hnone
  simp [defaultLast, he, hfind]

theorem defaultLast_concat_of_any (he : e.isDefault = true)
    (hany : es.any Enumeration.isDefault = true) : defaultLast (es ++ [e]) = defaultLast es := by
  obtain ⟨d, hd⟩ := Option.isSome_iff_exists.1 (List.find?_isSome.2 (List.any_eq_true.1 hany))
  simp [defaultLast, he, hd]

/-! ## Additions -/

/-- An addition behind others: a second default is refused, anything else takes its place. -/
theorem addEnumeration_defaultLast (hf : f.enumerations = defaultLast es) (e : Enumeration) :
    f.addEnumeration e =
      if e.isDefault && es.any Enumeration.isDefault then fail (.secondDefault f.name)
      else .ok { f with enumerations := defaultLast (es ++ [e]) } := by
  rw [addEnumeration, hf, any_isDefault_defaultLast]
  cases he : e.isDefault with
  | false => simp [insertOrdered_defaultLast he]
  | true =>
    cases hany : es.any Enumeration.isDefault with
    | false => simp [defaultLast_concat_of_none he hany]
    | true => simp

theorem attempt_defaultLast (hf : f.enumerations = defaultLast es) (e : Enumeration) :
    f.attempt e = { f with enumerations := defaultLast (es ++ [e]) } := by
  rw [attempt, addEnumeration_defaultLast hf]
  by_cases hsecond : (e.isDefault && es.any Enumeration.isDefault) = true
  · rw [if_pos hsecond]
    rw [Bool.and_eq_true] at hsecond
    rw [defaultLast_concat_of_any hsecond.1 hsecond.2, ← hf]
    rfl
  · rw [if_neg hsecond]

theorem attemptAll_concat (f : Field) (es : List Enumeration) (e : Enumeration) :
    f.attemptAll (es ++ [e]) = (f.attemptAll es).attempt e := by
  simp [attemptAll]

theorem attemptAll_eq (hf : f.enumerations = []) (es : List Enumeration) :
    f.attemptAll es = { f with enumerations := defaultLast es } := by
  induction es using List.reverseRecOn with
  | nil =>
    show f = { f with enumerations := [] }
    rw [← hf]
  | append_singleton es e ih =>
    rw [attemptAll_concat, ih]
    exact attempt_defaultLast rfl e

/-! ## Lookup -/

theorem selected?_defaultLast (es : List Enumeration) (v : Nat) :
    selected? (defaultLast es) v = selected? es v := by
  have hlast : ∀ d ∈ (es.find? Enumeration.isDefault).toList, d.isDefault = true :=
    fun d hd => List.find?_some (Option.mem_toList.1 hd)
  have hothers : (defaultLast es).find? (fun e => !e.isDefault && e.selects v) =
      es.find? fun e => !e.isDefault && e.selects v := by
    have hnone : (es.find? Enumeration.isDefault).toList.find?
        (fun e => !e.isDefault && e.selects v) = none :=
      List.find?_eq_none.2 fun d hd => by simp [hlast d hd]
    rw [defaultLast, List.find?_append, hnone, Option.or_none, List.find?_filter]
    congr 1
    funext e
    cases e.isDefault <;> simp
  have hdefault : (defaultLast es).find? Enumeration.isDefault =
      es.find? Enumeration.isDefault := by
    have hnone : (es.filter (!·.isDefault)).find? Enumeration.isDefault = none :=
      List.find?_eq_none.2 fun e he => by simpa using (List.mem_filter.1 he).2
    rw [defaultLast, List.find?_append, hnone, Option.none_or]
    cases h : es.find? Enumeration.isDefault with
    | none => rfl
    | some d => simp [List.find?_some h]
  rw [selected?, hothers, hdefault, selected?]

/-- **Enumerations in order.** After any attempts to add enumerations to a field without any, it has
those that are no defaults as they came and the first default behind them, and is the same
otherwise. The next addition fails exactly if it is of a second default, and leaves the field as it
is then. A value is described by the first enumeration that came and is no default whose value it
has under the mask, else by the default, else by none. -/
theorem attemptAll_enumerations (hf : f.enumerations = []) (es : List Enumeration) :
    f.attemptAll es = { f with
      enumerations := es.filter (!·.isDefault) ++ (es.find? Enumeration.isDefault).toList } ∧
    (∀ e, ((∃ x, (f.attemptAll es).addEnumeration e = .error x) ↔
        e.isDefault = true ∧ ∃ d ∈ es, d.isDefault = true) ∧
      ∀ x, (f.attemptAll es).addEnumeration e = .error x →
        x = ⟨[], .secondDefault f.name⟩ ∧ f.attemptAll (es ++ [e]) = f.attemptAll es) ∧
    ∀ v, (f.attemptAll es).enumerationFor? v =
      (es.find? fun e => !e.isDefault && (v &&& e.mask == e.value)).or
        (es.find? Enumeration.isDefault) := by
  have hall := attemptAll_eq hf es
  have hadd (e : Enumeration) : (f.attemptAll es).addEnumeration e =
      if e.isDefault && es.any Enumeration.isDefault then fail (.secondDefault f.name)
      else .ok { f with enumerations := defaultLast (es ++ [e]) } := by
    rw [hall, addEnumeration_defaultLast rfl]
  refine ⟨hall, fun e => ?_, fun v => ?_⟩
  · rw [hadd, ← List.any_eq_true, ← Bool.and_eq_true]
    by_cases hsecond : (e.isDefault && es.any Enumeration.isDefault) = true
    · rw [if_pos hsecond]
      refine ⟨⟨fun _ => hsecond, fun _ => ⟨_, rfl⟩⟩, fun x hx => ?_⟩
      cases hx
      rw [Bool.and_eq_true] at hsecond
      rw [attemptAll_eq hf, hall, defaultLast_concat_of_any hsecond.1 hsecond.2]
      exact ⟨rfl, rfl⟩
    · rw [if_neg hsecond]
      exact ⟨⟨nofun, fun h => absurd h hsecond⟩, nofun⟩
  · rw [hall]
    exact selected?_defaultLast es v

section Example

private def mode : Field := { name := "MODE", bitOffset := 0, bitWidth := 4 }

private def one : Enumeration := { name := "one", value := 1, mask := 15 }

/-- Any odd value, the first one among them. -/
private def odd : Enumeration := { name := "odd", value := 1, mask := 1 }

private def other : Enumeration := { name := "other" }

private def again : Enumeration := { name := "again" }

theorem attemptAll_enumerations_mode : mode.enumerations = [] ∧
    (mode.attemptAll [other, one, again, odd]).enumerations = [one, odd, other] ∧
    (mode.attemptAll [other, one]).addEnumeration again = .error ⟨[], .secondDefault "MODE"⟩ ∧
    [1, 3, 2].map (mode.attemptAll [other, one, again, odd]).enumerationFor? =
      [some one, some odd, some other] := by
  have hempty : mode.enumerations = [] := rfl
  obtain ⟨hall, -, hlookup⟩ := attemptAll_enumerations hempty [other, one, again, odd]
  obtain ⟨-, hnext, -⟩ := attemptAll_enumerations hempty [other, one]
  obtain ⟨hfails, hcause⟩ := hnext again
  obtain ⟨x, hx⟩ := hfails.2 ⟨rfl, other, List.mem_cons_self, rfl⟩
  refine ⟨hempty, ?_, ?_, ?_⟩
  · rw [hall]
    decide
  · rw [hx, (hcause x hx).1]
    rfl
  · rw [funext hlookup]
    decide

end Example

end Field

end RegisterMap
