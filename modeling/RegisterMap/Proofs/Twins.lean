import RegisterMap.Proofs.Derivation
import RegisterMap.Proofs.Repeats
import Mathlib.Data.List.Induction

/-!
# Which peripherals are derived

Deriving the peripherals of a device compares each with those in front of it, some of which may
have become aliases meanwhile. Since structural equality is an equivalence, the outcome is that of
a comparison with the peripherals as they were: each becomes an alias of the earliest one with its
structure (`Device.derivePeripherals_exact`). What is left has no structure twice.
-/

namespace RegisterMap

namespace Peripheral

variable {cmp : Comparison} {ps qs : List Peripheral} {p q s : Peripheral}

/-! ## Looking among the peripherals as they were -/

/-- The earliest of several peripherals that is no alias and has the structure of `p`. -/
def IsFirstTwin (cmp : Comparison) (ps : List Peripheral) (p s : Peripheral) : Prop :=
  ∃ before after, ps = before ++ s :: after ∧ s.isDerived = false ∧ p.equivalent s cmp = true ∧
    ∀ t ∈ before, t.isDerived = false → p.equivalent t cmp = false

/-- Whether `s` is no alias and has the structure of `p`. -/
def isTwin (cmp : Comparison) (p s : Peripheral) : Bool := !s.isDerived && p.equivalent s cmp

theorem isTwin_eq_true_iff :
    isTwin cmp p s = true ↔ s.isDerived = false ∧ p.equivalent s cmp = true := by
  simp [isTwin]

theorem find?_isTwin_eq_some_iff :
    ps.find? (isTwin cmp p) = some s ↔ IsFirstTwin cmp ps p s := by
  rw [List.find?_eq_some_iff_append, isTwin_eq_true_iff]
  constructor
  · rintro ⟨⟨hown, halike⟩, before, after, rfl, hbefore⟩
    refine ⟨before, after, rfl, hown, halike, fun t ht htown => ?_⟩
    simpa [isTwin, htown] using hbefore t ht
  · rintro ⟨before, after, rfl, hown, halike, hbefore⟩
    refine ⟨⟨hown, halike⟩, before, after, rfl, fun t ht => ?_⟩
    cases htown : t.isDerived with
    | true => simp [isTwin, htown]
    | false => simp [isTwin, hbefore t ht htown]

/-- A peripheral without registers has no twin that others could derive from. -/
theorem twin?_of_isEmpty (h : p.registers.isEmpty = true) (earlier : List Peripheral) :
    twin? cmp earlier p = none := by
  refine List.find?_eq_none.2 fun s _ hs => ?_
  simp only [Bool.and_eq_true, Bool.not_eq_true'] at hs
  rw [← isEmpty_registers_of_equivalent hs.2, h] at hs
  exact Bool.noConfusion hs.1.2

theorem deriveAll_concat (cmp : Comparison) (earlier ps : List Peripheral) (p : Peripheral) :
    deriveAll cmp earlier (ps ++ [p]) = deriveAll cmp earlier ps ++
      [deriveFromEarlier cmp (earlier ++ deriveAll cmp earlier ps) p] := by
  induction ps generalizing earlier with
  | nil => simp [deriveAll]
  | cons q ps ih => simp only [List.cons_append, deriveAll, ih, List.append_assoc, List.nil_append]

/-- The twin among peripherals that were derived is the one among the peripherals as they were: an
earliest one is never made an alias, since its twin would be an earlier twin. -/
theorem twin?_deriveAll (ps : List Peripheral) :
    ∀ p, p.registers.isEmpty = false →
      twin? cmp (deriveAll cmp [] ps) p = ps.find? (isTwin cmp p) := by
  induction ps using List.reverseRecOn with
  | nil => exact fun _ _ => rfl
  | append_singleton ps s ih =>
    intro p hp
    have hfirst := ih p hp
    unfold twin? at hfirst ⊢
    rw [deriveAll_concat, List.nil_append, List.find?_append, List.find?_append, hfirst]
    cases hfind : ps.find? (isTwin cmp p) with
    | some t => rfl
    | none =>
      rw [Option.none_or, Option.none_or]
      have hnone : ∀ t ∈ ps, isTwin cmp p t ≠ true := List.find?_eq_none.1 hfind
      by_cases halike : p.equivalent s cmp = true
      · have hs : s.registers.isEmpty = false := by
          rw [← isEmpty_registers_of_equivalent halike]
          exact hp
        unfold deriveFromEarlier
        rw [ih s hs]
        split
        · rename_i hown
          simp [isTwin, hown]
        · cases hsource : ps.find? (isTwin cmp s) with
          | none => simp [isTwin, hs]
          | some t =>
            -- a source of `s` would have been found for `p` as well
            have ht := isTwin_eq_true_iff.1 (List.find?_some hsource)
            exact absurd (isTwin_eq_true_iff.2 ⟨ht.1, equivalent_trans halike ht.2⟩)
              (hnone t (List.mem_of_find?_eq_some hsource))
      · have hkept : isTwin cmp p s = false := by
          simp [isTwin, halike]
        have hderived := derivedIn_deriveFromEarlier cmp (deriveAll cmp [] ps) s
        generalize deriveFromEarlier cmp (deriveAll cmp [] ps) s = out at hderived
        cases hderived with
        | kept => simp [halike, hkept]
        | derived => simp [hkept]

/-! ## What becomes of one peripheral -/

/-- The peripheral has registers of its own, and one of `ps` has the same. -/
def HasTwin (cmp : Comparison) (ps : List Peripheral) (p : Peripheral) : Prop :=
  p.isDerived = false ∧ p.registers ≠ [] ∧
    ∃ s ∈ ps, s.isDerived = false ∧ p.equivalent s cmp = true

theorem exists_isFirstTwin_iff :
    (∃ s, IsFirstTwin cmp ps p s) ↔ ∃ s ∈ ps, s.isDerived = false ∧ p.equivalent s cmp = true := by
  constructor
  · rintro ⟨s, before, after, rfl, hown, halike, -⟩
    exact ⟨s, by simp, hown, halike⟩
  · rintro ⟨s, hs, htwin⟩
    have hfound : (ps.find? (isTwin cmp p)).isSome = true :=
      List.find?_isSome.2 ⟨s, hs, isTwin_eq_true_iff.2 htwin⟩
    obtain ⟨t, ht⟩ := Option.isSome_iff_exists.1 hfound
    exact ⟨t, find?_isTwin_eq_some_iff.1 ht⟩

theorem deriveFromEarlier_of_isFirstTwin (hown : p.isDerived = false) (hp : p.registers ≠ [])
    (hs : IsFirstTwin cmp ps p s) :
    deriveFromEarlier cmp (deriveAll cmp [] ps) p = p.deriveFrom s.name := by
  have htwin : twin? cmp (deriveAll cmp [] ps) p = some s := by
    rw [twin?_deriveAll ps p (by simpa using hp)]
    exact find?_isTwin_eq_some_iff.2 hs
  unfold deriveFromEarlier
  rw [hown, htwin]
  rfl

theorem deriveFromEarlier_of_not_hasTwin (h : ¬HasTwin cmp ps p) :
    deriveFromEarlier cmp (deriveAll cmp [] ps) p = p := by
  unfold deriveFromEarlier
  by_cases hp : p.isDerived = true
  · rw [if_pos hp]
  · have htwin : twin? cmp (deriveAll cmp [] ps) p = none := by
      by_cases hempty : p.registers = []
      · exact twin?_of_isEmpty (by simp [hempty]) _
      · rw [twin?_deriveAll ps p (by simpa using hempty)]
        refine List.find?_eq_none.2 fun s hs htwin => h ?_
        exact ⟨by simpa using hp, hempty, s, hs, isTwin_eq_true_iff.1 htwin⟩
    rw [if_neg hp, htwin]

theorem getElem?_deriveAll (cmp : Comparison) (earlier ps : List Peripheral) (i : Nat) :
    (deriveAll cmp earlier ps)[i]? =
      ps[i]?.map (deriveFromEarlier cmp (earlier ++ deriveAll cmp earlier (ps.take i))) := by
  induction ps generalizing earlier i with
  | nil => rfl
  | cons p ps ih =>
    cases i with
    | zero => simp [deriveAll]
    | succ i => simp [deriveAll, ih, List.append_assoc]

variable {i : Nat}

theorem eq_of_getElem?_deriveAll (hp : ps[i]? = some p) (hq : (deriveAll cmp [] ps)[i]? = some q) :
    q = deriveFromEarlier cmp (deriveAll cmp [] (ps.take i)) p := by
  rw [getElem?_deriveAll, hp] at hq
  exact (Option.some.inj hq).symm

/-- A peripheral is changed exactly when it has a twin in front of it. -/
theorem ne_iff_hasTwin (hp : ps[i]? = some p) (hq : (deriveAll cmp [] ps)[i]? = some q) :
    q ≠ p ↔ HasTwin cmp (ps.take i) p := by
  rw [eq_of_getElem?_deriveAll hp hq]
  constructor
  · intro hne
    by_contra h
    exact hne (deriveFromEarlier_of_not_hasTwin h)
  · rintro ⟨hown, hregisters, htwin⟩ heq
    obtain ⟨s, hs⟩ := exists_isFirstTwin_iff.2 htwin
    rw [deriveFromEarlier_of_isFirstTwin hown hregisters hs] at heq
    rw [← heq] at hown
    cases hown

theorem exists_of_ne (hp : ps[i]? = some p) (hq : (deriveAll cmp [] ps)[i]? = some q)
    (hne : q ≠ p) : ∃ s, IsFirstTwin cmp (ps.take i) p s ∧ q = p.deriveFrom s.name := by
  obtain ⟨hown, hregisters, htwin⟩ := (ne_iff_hasTwin hp hq).1 hne
  obtain ⟨s, hs⟩ := exists_isFirstTwin_iff.2 htwin
  refine ⟨s, hs, ?_⟩
  rw [eq_of_getElem?_deriveAll hp hq, deriveFromEarlier_of_isFirstTwin hown hregisters hs]

/-- No two peripherals with registers of their own are left that have the same. -/
theorem pairwise_not_equivalent_deriveAll (cmp : Comparison) (ps : List Peripheral) :
    (deriveAll cmp [] ps).Pairwise fun p q =>
      p.isDerived = false → q.isDerived = false → p.registers ≠ [] → q.registers ≠ [] →
        p.equivalent q cmp = false ∧ q.equivalent p cmp = false := by
  rw [List.pairwise_iff_getElem]
  intro i j hi hj hij hpown hqown hp hq
  have hsame : ∀ (k : Nat) (hk : k < (deriveAll cmp [] ps).length),
      ((deriveAll cmp [] ps)[k]).isDerived = false → ps[k]? = some (deriveAll cmp [] ps)[k] := by
    intro k hk hown
    have hlength : k < ps.length := by
      rw [← length_deriveAll cmp [] ps]
      exact hk
    rw [List.getElem?_eq_getElem hlength]
    by_contra hne
    obtain ⟨s, -, hs⟩ := exists_of_ne (List.getElem?_eq_getElem hlength)
      (List.getElem?_eq_getElem hk) fun h => hne (congrArg some h.symm)
    rw [hs] at hown
    cases hown
  have hpi := hsame i hi hpown
  have hqj := hsame j hj hqown
  have hnot : (deriveAll cmp [] ps)[j].equivalent (deriveAll cmp [] ps)[i] cmp = false := by
    by_contra halike
    refine (ne_iff_hasTwin hqj (List.getElem?_eq_getElem hj)).2 ⟨hqown, hq, _, ?_, hpown,
      by simpa using halike⟩ rfl
    exact List.mem_iff_getElem?.2 ⟨i, by rw [List.getElem?_take_of_lt hij, hpi]⟩
  exact ⟨equivalent_comm _ _ cmp ▸ hnot, hnot⟩

end Peripheral

/-- Each peripheral becomes an alias of the earliest one with its structure, as they were before:
one that was not derived, with registers, is changed exactly when there is one in front of it, and
only its source, its registers and its address blocks are. No structure is left twice, and deriving
the peripherals once more changes nothing. -/
theorem Device.derivePeripherals_exact (d : Device) (cmp : Comparison) :
    d.derivePeripherals cmp = { d with peripherals := (d.derivePeripherals cmp).peripherals } ∧
    (d.derivePeripherals cmp).peripherals.length = d.peripherals.length ∧
    (∀ (i : Nat) (p q : Peripheral), d.peripherals[i]? = some p →
      (d.derivePeripherals cmp).peripherals[i]? = some q →
        (q ≠ p ↔ p.isDerived = false ∧ p.registers ≠ [] ∧
          ∃ s ∈ d.peripherals.take i, s.isDerived = false ∧ p.equivalent s cmp = true) ∧
        (q ≠ p → ∃ s, Peripheral.IsFirstTwin cmp (d.peripherals.take i) p s ∧
          q = { p with derivedFrom := some s.name, registers := [], addressBlocks := [] })) ∧
    ((d.derivePeripherals cmp).peripherals.Pairwise fun p q =>
      p.isDerived = false → q.isDerived = false → p.registers ≠ [] → q.registers ≠ [] →
        p.equivalent q cmp = false ∧ q.equivalent p cmp = false) ∧
    (d.derivePeripherals cmp).derivePeripherals cmp = d.derivePeripherals cmp := by
  refine ⟨rfl, Peripheral.length_deriveAll cmp [] d.peripherals, ?_,
    Peripheral.pairwise_not_equivalent_deriveAll cmp d.peripherals, ?_⟩
  · intro i p q hp hq
    exact ⟨Peripheral.ne_iff_hasTwin hp hq, Peripheral.exists_of_ne hp hq⟩
  · unfold Device.derivePeripherals
    rw [Peripheral.deriveAll_deriveAll]

section Example

private def watchdog (name : String) (width : Nat) : Peripheral :=
  { name, baseAddress := 0, registers := [.register (.plain "CTRL" 0 width)] }

/-- The last one derives from the second, not from the third, which is an alias by then. -/
example :
    (Device.derivePeripherals
      { name := "D", peripherals := [watchdog "W0" 32, watchdog "W1" 16, watchdog "W2" 16,
        watchdog "W3" 16] } {}).peripherals.map Peripheral.derivedFrom =
      [none, none, some "W1", some "W1"] := by
  cbv

end Example

end RegisterMap
