import RegisterMap.Proofs.Derivation
import RegisterMap.Proofs.Success
import RegisterMap.Reduction

/-!
# Stages of a reduction

A device that is reduced with success was valid, each of its peripherals was reduced, one after the
other, then some of them were derived, and the vectors were collected (`Device.reduce_ok_iff`).
-/

namespace RegisterMap

namespace Peripheral

variable {s : Settings}

theorem reduce_of_isDerived {q : Peripheral} (h : q.isDerived = true) (conflicts : List String) :
    Workpiece.reduce s ⟨q, conflicts⟩ = .pure ⟨q, conflicts⟩ := if_pos h

theorem reduceAll_cons_ok_iff {conflicts : List String} {p : Peripheral}
    {ps qs : List Peripheral} :
    (reduceAll s conflicts (p :: ps)).toExcept = .ok qs ↔ ∃ w rs,
      (Workpiece.reduce s ⟨p, conflicts⟩).toExcept = .ok w ∧
      (reduceAll s w.conflicts ps).toExcept = .ok rs ∧ w.peripheral :: rs = qs := by
  rw [reduceAll]
  constructor
  · intro h
    cases hhere : (Workpiece.reduce s ⟨p, conflicts⟩).failure with
    | some f =>
      simp only [hhere] at h
      cases h
    | none =>
      simp only [hhere] at h
      obtain ⟨hrest, hstate⟩ := Outcome.toExcept_eq_ok_iff.1 h
      exact ⟨_, _, Outcome.toExcept_eq_ok_iff.2 ⟨hhere, rfl⟩,
        Outcome.toExcept_eq_ok_iff.2 ⟨hrest, rfl⟩, hstate⟩
  · rintro ⟨w, rs, hp, hps, rfl⟩
    obtain ⟨hhere, rfl⟩ := Outcome.toExcept_eq_ok_iff.1 hp
    obtain ⟨hrest, rfl⟩ := Outcome.toExcept_eq_ok_iff.1 hps
    simp only [hhere]
    exact Outcome.toExcept_eq_ok_iff.2 ⟨hrest, rfl⟩

theorem reduceAll_ok {conflicts : List String} {ps qs : List Peripheral}
    (h : (reduceAll s conflicts ps).toExcept = .ok qs) :
    List.Forall₂ (fun p q => ∃ conflicts w,
      (Workpiece.reduce s ⟨p, conflicts⟩).toExcept = .ok w ∧ w.peripheral = q) ps qs := by
  induction ps generalizing conflicts qs with
  | nil =>
    cases h
    exact .nil
  | cons p ps ih =>
    obtain ⟨w, rs, hw, hrs, rfl⟩ := reduceAll_cons_ok_iff.1 h
    exact .cons ⟨conflicts, w, hw, rfl⟩ (ih hrs)

end Peripheral

namespace Device

theorem collectVectors_ok {d e : Device} (h : d.collectVectors = .ok e) :
    ∃ t, e = { d with vectorTable := some t } := by
  unfold collectVectors at h
  obtain ⟨t, -, h⟩ := bind_eq_ok.1 h
  obtain ⟨u, -, h⟩ := bind_eq_ok.1 h
  obtain ⟨v, -, h⟩ := bind_eq_ok.1 h
  exact ⟨v, (Except.ok.inj h).symm⟩

/-- The device with its peripherals derived, if the settings ask for it. -/
def deriveIf (s : Settings) (d : Device) : Device :=
  if s.derivePeripherals then d.derivePeripherals s.comparison else d

theorem deriveIf_cases (s : Settings) (d : Device) :
    d.deriveIf s = d ∨ d.deriveIf s = d.derivePeripherals s.comparison := by
  unfold deriveIf
  split
  · exact .inr rfl
  · exact .inl rfl

theorem deriveIf_eq (s : Settings) (d : Device) :
    d.deriveIf s = { d with peripherals := (d.deriveIf s).peripherals } := by
  rcases deriveIf_cases s d with hd | hd
  · rw [hd]
  · rw [hd]
    rfl

/-- The stages of a reduction that succeeds. -/
theorem reduce_ok_iff {d e : Device} {s : Settings} :
    (d.reduce s).toExcept = .ok e ↔ d.validate = .ok () ∧ ∃ ps,
      (Peripheral.reduceAll s [] d.peripherals).toExcept = .ok ps ∧
      (({ d with peripherals := ps } : Device).deriveIf s).collectVectors = .ok e ∧
      e.validate = .ok () := by
  unfold Device.reduce
  simp only [Outcome.toExcept_andThen, bind_eq_ok]
  constructor
  · rintro ⟨d₃, ⟨d₂, ⟨d₁, ⟨d₀, h₀, h₁⟩, h₂⟩, h₃⟩, h₄⟩
    obtain ⟨hfirst, rfl⟩ := Outcome.check_ok h₀
    obtain ⟨hlast, rfl⟩ := Outcome.check_ok (Outcome.within_ok h₄)
    rw [Outcome.toExcept_ofExcept] at h₃
    obtain rfl : d₁.deriveIf s = d₂ := Except.ok.inj h₂
    obtain ⟨ps, hps, rfl⟩ := Outcome.map_ok h₁
    exact ⟨hfirst, ps, hps, h₃, hlast⟩
  · rintro ⟨hfirst, ps, hps, hcollected, hlast⟩
    refine ⟨e, ⟨_, ⟨{ d with peripherals := ps }, ⟨d, by rw [hfirst]; rfl, ?_⟩, rfl⟩, ?_⟩,
      by rw [hlast]; rfl⟩
    · obtain ⟨hdone, hstate⟩ := Outcome.toExcept_eq_ok_iff.1 hps
      exact Outcome.toExcept_eq_ok_iff.2 ⟨hdone, by rw [← hstate]; rfl⟩
    · rw [Outcome.toExcept_ofExcept]
      exact hcollected

end Device

end RegisterMap
