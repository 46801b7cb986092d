import Mathlib.Data.List.Nodup
import RegisterMap.Proofs.Element
import RegisterMap.Proofs.Equivalence
import RegisterMap.Proofs.Success
import RegisterMap.Reduction.Derivation

/-!
# Derived peripherals

Deriving the peripherals of a device turns some of them into aliases of structurally equal ones
(`Peripheral.DerivedIn`). A device whose derivations can be followed stays so exactly when no
peripheral that others derive from becomes an alias itself, and then every peripheral is resolved
to one that is structurally equal to what it was resolved to before
(`Device.derivePeripherals_resolves`). `Device.derivePeripherals_chain` is a device where that
condition fails.
-/

namespace RegisterMap

/-! ## Looking up by a key -/

section Keys

variable {α κ : Type} [BEq κ] [LawfulBEq κ] {key : α → κ} {as bs : List α}

/-- Where no two elements share a key, the one that has the key is found. -/
theorem find?_key_eq_some_iff (h : (as.map key).Nodup) {k : κ} {a : α} :
    as.find? (fun b => key b == k) = some a ↔ a ∈ as ∧ key a = k := by
  constructor
  · intro ha
    exact ⟨List.mem_of_find?_eq_some ha, by simpa using List.find?_some ha⟩
  · rintro ⟨ha, rfl⟩
    cases hfound : as.find? fun b => key b == key a with
    | none => simpa using List.find?_eq_none.1 hfound a ha
    | some b =>
      have hb : key b = key a := by simpa using List.find?_some hfound
      rw [List.inj_on_of_nodup_map h (List.mem_of_find?_eq_some hfound) ha hb]

theorem find?_key_perm (h : (as.map key).Nodup) (hperm : as.Perm bs) (k : κ) :
    bs.find? (fun b => key b == k) = as.find? fun a => key a == k := by
  ext a
  rw [find?_key_eq_some_iff h, find?_key_eq_some_iff ((hperm.map key).nodup_iff.1 h),
    hperm.mem_iff]

end Keys

namespace Peripheral

variable {cmp : Comparison} {out out' : List Peripheral} {p q : Peripheral}

/-- What deriving makes of a peripheral: itself, or an alias of a structurally equal one that is
in `out` and no alias. -/
inductive DerivedIn (cmp : Comparison) (out : List Peripheral) (p : Peripheral) : Peripheral → Prop
  | kept : DerivedIn cmp out p p
  | derived {s : Peripheral} (own : p.isDerived = false) (source_mem : s ∈ out)
      (source_own : s.isDerived = false) (alike : p.equivalent s cmp = true) :
      DerivedIn cmp out p (p.deriveFrom s.name)

theorem DerivedIn.name_eq (h : DerivedIn cmp out p q) : q.name = p.name := by
  cases h <;> rfl

theorem DerivedIn.mono (h : DerivedIn cmp out p q) (hout : ∀ s ∈ out, s ∈ out') :
    DerivedIn cmp out' p q := by
  cases h with
  | kept => exact .kept
  | derived own hmem hown halike => exact .derived own (hout _ hmem) hown halike

/-- Aliases stay as they are. -/
theorem DerivedIn.eq_of_isDerived (h : DerivedIn cmp out p q) (hp : p.isDerived = true) :
    q = p := by
  cases h with
  | kept => rfl
  | derived own =>
    rw [own] at hp
    cases hp

/-- What is no alias afterwards has not been changed. -/
theorem DerivedIn.eq_of_not_isDerived (h : DerivedIn cmp out p q) (hq : q.isDerived = false) :
    q = p := by
  cases h with
  | kept => rfl
  | derived => cases hq

theorem derivedIn_deriveFromEarlier (cmp : Comparison) (earlier : List Peripheral)
    (p : Peripheral) : DerivedIn cmp earlier p (deriveFromEarlier cmp earlier p) := by
  unfold deriveFromEarlier
  split
  · exact .kept
  · rename_i hp
    split
    · rename_i s hs
      have hfound := List.find?_some hs
      simp only [Bool.and_eq_true, Bool.not_eq_true'] at hfound
      exact .derived (by simpa using hp) (List.mem_of_find?_eq_some hs) hfound.1.1 hfound.2
    · exact .kept

/-- Each peripheral of a list is derived among the earlier ones and the results. -/
theorem derivedIn_deriveAll (cmp : Comparison) (earlier ps : List Peripheral) :
    List.Forall₂ (DerivedIn cmp (earlier ++ deriveAll cmp earlier ps)) ps
      (deriveAll cmp earlier ps) := by
  induction ps generalizing earlier with
  | nil => exact .nil
  | cons p ps ih =>
    have htail := ih (earlier ++ [deriveFromEarlier cmp earlier p])
    rw [List.append_assoc] at htail
    refine .cons ?_ htail
    exact (derivedIn_deriveFromEarlier cmp earlier p).mono fun s hs => List.mem_append_left _ hs

theorem validate_deriveFrom (p : Peripheral) (source : String) :
    (p.deriveFrom source).validate = .ok () := by
  simp [validate, deriveFrom, checkElements]

end Peripheral

namespace Device

open Peripheral

variable {d : Device} {cmp : Comparison} {p q s : Peripheral}

/-! ## Looking up and resolving -/

theorem mem_of_resolve (hp : p ∈ d.peripherals) (h : d.resolve p = .ok s) : s ∈ d.peripherals := by
  unfold resolve at h
  split at h
  · cases h
    exact hp
  · split at h
    · rename_i hs
      cases h
      exact List.mem_of_find?_eq_some (Option.filter_eq_some_iff.1 hs).1
    · cases h

/-- The peripherals of the device have different names. -/
def HasDistinctNames (d : Device) : Prop := (d.peripherals.map Peripheral.name).Nodup

instance : DecidablePred HasDistinctNames := fun _ => inferInstanceAs (Decidable (List.Nodup _))

theorem HasDistinctNames.eq_of_name_eq (h : d.HasDistinctNames) (hp : p ∈ d.peripherals)
    (hq : q ∈ d.peripherals) (hname : p.name = q.name) : p = q :=
  List.inj_on_of_nodup_map h hp hq hname

theorem HasDistinctNames.find?_eq_some_iff (h : d.HasDistinctNames) {name : String} :
    d.find? name = some s ↔ s ∈ d.peripherals ∧ s.name = name :=
  find?_key_eq_some_iff h

theorem HasDistinctNames.resolve_eq_ok_iff (h : d.HasDistinctNames) {source : String}
    (hp : p.derivedFrom = some source) :
    d.resolve p = .ok s ↔ s ∈ d.peripherals ∧ s.name = source ∧ s.isDerived = false := by
  have hfilter : (d.find? source).filter (!·.isDerived) = some s ↔
      s ∈ d.peripherals ∧ s.name = source ∧ s.isDerived = false := by
    rw [Option.filter_eq_some_iff, h.find?_eq_some_iff, Bool.not_eq_true', and_assoc]
  rw [← hfilter]
  unfold resolve
  rw [hp]
  simp only
  split
  · rename_i t ht
    rw [ht, Except.ok.injEq, Option.some.injEq]
  · rename_i hnone
    rw [hnone]
    constructor
    · intro h
      cases h
    · intro h
      cases h

theorem validate_eq_ok_iff :
    d.validate = .ok () ↔
      ∀ p ∈ d.peripherals, (∃ s, d.resolve p = .ok s) ∧ p.validate = .ok () := by
  unfold validate
  rw [forM_eq_ok_iff]
  refine forall₂_congr fun p _ => ?_
  rw [bind_eq_ok]
  constructor
  · rintro ⟨_, hresolve, hvalidate⟩
    obtain ⟨s, hs⟩ := discard_eq_ok_iff.1 hresolve
    exact ⟨⟨s, within_eq_ok.1 hs⟩, hvalidate⟩
  · rintro ⟨⟨s, hs⟩, hvalidate⟩
    exact ⟨(), discard_eq_ok_iff.2 ⟨s, within_eq_ok.2 hs⟩, hvalidate⟩

/-! ## Deriving -/

theorem derivePeripherals_derivedIn (d : Device) (cmp : Comparison) :
    List.Forall₂ (DerivedIn cmp (d.derivePeripherals cmp).peripherals) d.peripherals
      (d.derivePeripherals cmp).peripherals :=
  derivedIn_deriveAll cmp [] d.peripherals

theorem map_name_of_derivedIn {out ps qs : List Peripheral}
    (h : List.Forall₂ (DerivedIn cmp out) ps qs) :
    qs.map Peripheral.name = ps.map Peripheral.name := by
  induction h with
  | nil => rfl
  | cons hpq _ ih => rw [List.map_cons, List.map_cons, hpq.name_eq, ih]

theorem HasDistinctNames.derivePeripherals (h : d.HasDistinctNames) (cmp : Comparison) :
    (d.derivePeripherals cmp).HasDistinctNames := by
  unfold HasDistinctNames
  rw [map_name_of_derivedIn (d.derivePeripherals_derivedIn cmp)]
  exact h

/-- No peripheral that others derive from becomes an alias when peripherals are derived. -/
def KeepsSources (d : Device) (cmp : Comparison) : Prop :=
  ∀ p ∈ d.peripherals, p.isDerived = true → ∀ s, d.resolve p = .ok s →
    s ∈ (d.derivePeripherals cmp).peripherals

/-- A peripheral is resolved to one that is structurally equal to its former source, if that is
still there. -/
theorem exists_resolve_of_derivedIn (hnames : d.HasDistinctNames)
    (hpq : DerivedIn cmp (d.derivePeripherals cmp).peripherals p q) (hs : d.resolve p = .ok s)
    (hkept : p.isDerived = true → s ∈ (d.derivePeripherals cmp).peripherals) :
    ∃ t, (d.derivePeripherals cmp).resolve q = .ok t ∧ t.equivalent s cmp = true := by
  have hnames' := hnames.derivePeripherals cmp
  cases hpq with
  | kept =>
    cases hp : p.derivedFrom with
    | none =>
      have hown : p.isDerived = false := by simp [isDerived, hp]
      rw [resolve_of_not_isDerived d hown] at hs
      cases hs
      exact ⟨p, resolve_of_not_isDerived _ hown, p.equivalent_self cmp⟩
    | some source =>
      obtain ⟨-, hname, hown⟩ := (hnames.resolve_eq_ok_iff hp).1 hs
      have hmem := hkept (by simp [isDerived, hp])
      exact ⟨s, (hnames'.resolve_eq_ok_iff hp).2 ⟨hmem, hname, hown⟩, s.equivalent_self cmp⟩
  | @derived t hown hmem htown halike =>
    rw [resolve_of_not_isDerived d hown] at hs
    cases hs
    rw [p.equivalent_comm] at halike
    exact ⟨t, (hnames'.resolve_eq_ok_iff rfl).2 ⟨hmem, rfl, htown⟩, halike⟩

/-- Where all derivations can still be followed, their sources have been kept. -/
theorem keepsSources_of_validate (hnames : d.HasDistinctNames)
    (hvalid : (d.derivePeripherals cmp).validate = .ok ()) : d.KeepsSources cmp := by
  intro p hp hderived s hs
  have hall := d.derivePeripherals_derivedIn cmp
  obtain ⟨source, hsource⟩ := Option.isSome_iff_exists.1 hderived
  obtain ⟨hmem, hname, -⟩ := (hnames.resolve_eq_ok_iff hsource).1 hs
  -- what has become of the alias and of its source
  obtain ⟨p', hp', hpp'⟩ := exists_mem_of_forall₂ hall.flip hp
  obtain ⟨s', hs', hss'⟩ := exists_mem_of_forall₂ hall.flip hmem
  obtain ⟨⟨t, ht⟩, -⟩ := validate_eq_ok_iff.1 hvalid p' hp'
  rw [DerivedIn.eq_of_isDerived hpp' hderived] at ht
  have hnames' := hnames.derivePeripherals cmp
  obtain ⟨htmem, htname, htown⟩ := (hnames'.resolve_eq_ok_iff hsource).1 ht
  have hst : s' = t := hnames'.eq_of_name_eq hs' htmem (by
    rw [DerivedIn.name_eq hss', hname, htname])
  rw [← hst] at htown
  rwa [DerivedIn.eq_of_not_isDerived hss' htown] at hs'

theorem validate_of_keepsSources (hnames : d.HasDistinctNames) (hvalid : d.validate = .ok ())
    (hkept : d.KeepsSources cmp) : (d.derivePeripherals cmp).validate = .ok () := by
  refine validate_eq_ok_iff.2 fun q hq => ?_
  obtain ⟨p, hp, hpq⟩ := exists_mem_of_forall₂ (d.derivePeripherals_derivedIn cmp) hq
  obtain ⟨⟨s, hs⟩, hpvalid⟩ := validate_eq_ok_iff.1 hvalid p hp
  obtain ⟨t, ht, -⟩ := exists_resolve_of_derivedIn hnames hpq hs fun hderived =>
    hkept p hp hderived s hs
  refine ⟨⟨t, ht⟩, ?_⟩
  cases hpq with
  | kept => exact hpvalid
  | derived => exact validate_deriveFrom p _

/-- **Derivation.** A valid device stays valid when its peripherals are derived, exactly when no
peripheral that others derive from becomes an alias. Then every peripheral is resolved to one that
is structurally equal to the one it was resolved to. -/
theorem derivePeripherals_resolves (cmp : Comparison) (hnames : d.HasDistinctNames)
    (hvalid : d.validate = .ok ()) :
    ((d.derivePeripherals cmp).validate = .ok () ↔ d.KeepsSources cmp) ∧
      (d.KeepsSources cmp → List.Forall₂
        (fun p q => ∃ s t, d.resolve p = .ok s ∧ (d.derivePeripherals cmp).resolve q = .ok t ∧
          t.equivalent s cmp = true)
        d.peripherals (d.derivePeripherals cmp).peripherals) := by
  refine ⟨⟨keepsSources_of_validate hnames, validate_of_keepsSources hnames hvalid⟩,
    fun hkept => ?_⟩
  rw [List.forall₂_iff_zip]
  refine ⟨(d.derivePeripherals_derivedIn cmp).length_eq, fun {p q} hpq => ?_⟩
  have hp := (List.of_mem_zip hpq).1
  obtain ⟨⟨s, hs⟩, -⟩ := validate_eq_ok_iff.1 hvalid p hp
  obtain ⟨t, ht, halike⟩ := exists_resolve_of_derivedIn hnames
    (List.forall₂_zip (d.derivePeripherals_derivedIn cmp) hpq) hs fun hderived =>
      hkept p hp hderived s hs
  exact ⟨s, t, hs, ht, halike⟩

section Example

private def timer (name : String) (base : Nat) : Peripheral :=
  { name, baseAddress := base, registers := [.register (.plain "CTRL" 0 32)] }

private def aliasOf (source name : String) : Peripheral :=
  { name, baseAddress := 0x3000, derivedFrom := some source }

/-- Two timers with the same registers, and an alias of the first. -/
private def timers : Device :=
  { name := "D", peripherals := [timer "T0" 0x1000, timer "T1" 0x2000, aliasOf "T0" "T2"] }

theorem derivePeripherals_resolves_timers :
    timers.HasDistinctNames ∧ timers.validate = .ok () ∧ timers.KeepsSources {} ∧
      (timers.derivePeripherals {}).validate = .ok () ∧
      List.Forall₂
        (fun p q => ∃ s t, timers.resolve p = .ok s ∧
          (timers.derivePeripherals {}).resolve q = .ok t ∧ t.equivalent s {} = true)
        timers.peripherals (timers.derivePeripherals {}).peripherals := by
  have hnames : timers.HasDistinctNames := by
    unfold HasDistinctNames
    decide
  have hvalid : timers.validate = .ok () := by cbv
  have hvalid' : (timers.derivePeripherals {}).validate = .ok () := by cbv
  obtain ⟨hiff, hresolves⟩ := derivePeripherals_resolves {} hnames hvalid
  have hkept := hiff.1 hvalid'
  exact ⟨hnames, hvalid, hkept, hvalid', hresolves hkept⟩

/-- Two timers with the same registers, and an alias of the second. -/
private def chain : Device :=
  { name := "D", peripherals := [timer "T0" 0x1000, timer "T1" 0x2000, aliasOf "T1" "T2"] }

/-- The second timer becomes an alias of the first, and its own alias can be followed no more. -/
theorem derivePeripherals_chain :
    chain.HasDistinctNames ∧ chain.validate = .ok () ∧
      (chain.derivePeripherals {}).validate =
        .error { places := [.peripheral "T2"], cause := .unresolvedDerivation "T1" } := by
  refine ⟨?_, ?_, ?_⟩
  · unfold HasDistinctNames
    decide
  · cbv
  · cbv

end Example

end Device

end RegisterMap
