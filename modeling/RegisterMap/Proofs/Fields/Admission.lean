import Mathlib
import RegisterMap.Access.Combination
import RegisterMap.Proofs.FieldBits
import RegisterMap.Proofs.Validity

/-!
# Fields of derived registers

The check on a register looks at the fields that it has itself. A derived register has those of its
source, which were checked with the width and the access of the source: they fit the register too
unless it is narrower or allows less (`Peripheral.fieldsOf_admits`). `Peripheral.not_admits_mirrors`
has a valid peripheral for either.
-/

namespace RegisterMap

namespace Access

/-- Whatever the second access type allows, the first does. -/
def Allows (a b : Access) : Prop := b.mask &&& a.mask = b.mask

instance : DecidableRel Allows :=
  fun a b => inferInstanceAs (Decidable (b.mask &&& a.mask = b.mask))

theorem exists_meet_iff {a b : Access} : (∃ c, a.meet b = .ok c) ↔ (a.meet? b).isSome = true := by
  unfold meet
  cases a.meet? b with
  | some c => simp
  | none => simp [fail]

/-- What goes with an access type goes with one that allows more. -/
theorem Allows.exists_meet {a b c : Access} (h : a.Allows b) (hc : ∃ d, c.meet b = .ok d) :
    ∃ d, c.meet a = .ok d := by
  rw [exists_meet_iff] at hc ⊢
  revert h hc
  cases a <;> cases b <;> cases c <;> decide

end Access

namespace Register

variable {r s : Register} {fs : List Field}

/-- The fields can be those of the register: none is empty or reaches out of it or out of a word,
they are apart unless they may overlap, their access goes with that of the register, and those that
share enumerations find them. -/
structure Admits (r : Register) (fs : List Field) : Prop where
  nonempty : ∀ f ∈ fs, 0 < f.bitWidth
  inside : ∀ f ∈ fs, f.bitEnd ≤ r.width ∧ f.bitEnd ≤ 64
  apart : (exclusive fs).Pairwise Field.Apart
  access : ∀ f ∈ fs, ∀ a, f.access = some a → ∃ b, a.meet r.access = .ok b
  enumerations : ∀ f ∈ fs, ∃ es, enumerationsAmong fs f = .ok es

theorem checkFieldAccess_eq_ok_iff : r.checkFieldAccess = .ok () ↔
    ∀ f ∈ r.fields, ∀ a, f.access = some a → ∃ b, a.meet r.access = .ok b := by
  unfold checkFieldAccess
  rw [forM_eq_ok_iff]
  refine forall₂_congr fun f _ => ?_
  simp only [Access.exists_meet_iff]
  cases f.access with
  | none => simp
  | some a =>
    cases ha : (a.meet? r.access).isSome with
    | true => simp [ha]
    | false => simp [ha, fail]

/-- The checks on a register are on the fields of its own. -/
theorem validate_eq_ok_iff_admits : r.validate = .ok () ↔ r.Admits r.fields := by
  rw [validate_eq_ok_iff, checkFieldBits_eq_ok_iff, checkFieldAccess_eq_ok_iff]
  constructor
  · rintro ⟨⟨hinside, hapart⟩, haccess, henumerations⟩
    exact ⟨fun f hf => (hinside f hf).1, fun f hf => (hinside f hf).2, hapart, haccess,
      henumerations⟩
  · rintro ⟨hnonempty, hinside, hapart, haccess, henumerations⟩
    exact ⟨⟨fun f hf => ⟨hnonempty f hf, hinside f hf⟩, hapart⟩, haccess, henumerations⟩

/-- Of fields that one register admits, another may be too narrow for some or not allow what they
do, and nothing else can be wrong. -/
theorem Admits.iff_of (h : s.Admits fs) : r.Admits fs ↔
    ∀ f ∈ fs, f.bitEnd ≤ r.width ∧ ∀ a, f.access = some a → ∃ b, a.meet r.access = .ok b := by
  constructor
  · intro hr f hf
    exact ⟨(hr.inside f hf).1, hr.access f hf⟩
  · intro hr
    exact ⟨h.nonempty, fun f hf => ⟨(hr f hf).1, (h.inside f hf).2⟩, h.apart,
      fun f hf => (hr f hf).2, h.enumerations⟩

theorem Admits.mono (h : s.Admits fs) (hwidth : s.width ≤ r.width)
    (haccess : r.access.Allows s.access) : r.Admits fs := by
  refine h.iff_of.2 fun f hf => ⟨?_, fun a ha => ?_⟩
  · exact (h.inside f hf).1.trans hwidth
  · exact haccess.exists_meet (h.access f hf a ha)

end Register

namespace Peripheral

open Element

variable {p : Peripheral} {r s : Register} {fs : List Field}

/-- The register whose fields describe a register: itself, or the one that it is derived from. -/
def described? (p : Peripheral) (r : Register) : Option Register :=
  match r.derivedFrom with
  | none => some r
  | some source => findIn? source p.registers

theorem fieldsOf_eq_ok_iff :
    p.fieldsOf r = .ok fs ↔ ∃ s, p.described? r = some s ∧ s.fields = fs := by
  unfold fieldsOf described?
  cases r.derivedFrom with
  | none => simp
  | some source =>
    dsimp only
    cases findIn? source p.registers with
    | none => simp [fail]
    | some s => simp

/-- In a valid peripheral a register that is not derived describes each register. -/
theorem exists_described (hp : p.validate = .ok ()) (hr : r ∈ registersAll p.registers) :
    ∃ s ∈ registersAll p.registers, p.described? r = some s ∧ s.derivedFrom = none := by
  obtain ⟨-, hregisters⟩ := validate_eq_ok_iff.1 hp
  unfold described?
  cases hsource : r.derivedFrom with
  | none => exact ⟨r, hr, rfl, hsource⟩
  | some source =>
    obtain ⟨s, hfound, hunderived⟩ := (hregisters r hr).2 source hsource
    exact ⟨s, mem_registersAll_of_findIn? _ hfound, hfound, hunderived⟩

/-- **Fields of a valid peripheral.** Each register has the fields of a register that admits them.
It admits them itself exactly when none reaches out of it or goes beyond what it allows, as when it
is as wide as that register and allows as much. -/
theorem fieldsOf_admits (hp : p.validate = .ok ()) (hr : r ∈ registersAll p.registers) :
    ∃ s ∈ registersAll p.registers, p.described? r = some s ∧ s.derivedFrom = none ∧
      p.fieldsOf r = .ok s.fields ∧ s.Admits s.fields ∧
      (r.Admits s.fields ↔ ∀ f ∈ s.fields, f.bitEnd ≤ r.width ∧
        ∀ a, f.access = some a → ∃ b, a.meet r.access = .ok b) ∧
      (s.width ≤ r.width → r.access.Allows s.access → r.Admits s.fields) := by
  obtain ⟨s, hs, hdescribed, hunderived⟩ := exists_described hp hr
  obtain ⟨-, hregisters⟩ := validate_eq_ok_iff.1 hp
  have hadmits : s.Admits s.fields := Register.validate_eq_ok_iff_admits.1 (hregisters s hs).1
  exact ⟨s, hs, hdescribed, hunderived, fieldsOf_eq_ok_iff.2 ⟨s, hdescribed, rfl⟩, hadmits,
    hadmits.iff_of, hadmits.mono⟩

section Example

/-- A register with one field, and one that is derived from it. -/
private def mirrored (f : Field) (control : Register) (mirror : Register) : Peripheral :=
  { name := "P", baseAddress := 0,
    registers := [.register { control with fields := [f] },
      .cluster { name := "BANK", offset := 8 }
        [.register { mirror with derivedFrom := some control.name }]] }

/-- The upper half of a word. -/
private def high : Field := { name := "HI", bitOffset := 16, bitWidth := 16 }

private def key : Field :=
  { name := "KEY", bitOffset := 0, bitWidth := 8, access := some .writeOnly }

private def control : Register := .plain "CTRL" 0 32

private def mirror : Register := .plain "MIRROR" 0 32

theorem fieldsOf_admits_mirrored : (mirrored high control mirror).validate = .ok () ∧
    { mirror with derivedFrom := some "CTRL" } ∈
      registersAll (mirrored high control mirror).registers ∧
    (mirrored high control mirror).fieldsOf { mirror with derivedFrom := some "CTRL" } =
      .ok [high] ∧
    Register.Admits { mirror with derivedFrom := some "CTRL" } [high] := by
  have hvalid : (mirrored high control mirror).validate = .ok () := by cbv
  have hmem : { mirror with derivedFrom := some "CTRL" } ∈
      registersAll (mirrored high control mirror).registers := by decide +kernel
  obtain ⟨s, -, hdescribed, -, hfields, -, -, hadmits⟩ := fieldsOf_admits hvalid hmem
  have hs : s = { control with fields := [high] } := by
    have h : (mirrored high control mirror).described?
      { mirror with derivedFrom := some "CTRL" } = some { control with fields := [high] } := by cbv
    exact Option.some.inj (hdescribed.symm.trans h)
  subst hs
  exact ⟨hvalid, hmem, hfields, hadmits (by decide) (by decide)⟩

private def narrow : Peripheral := mirrored high control { mirror with width := 8 }

private def locked : Peripheral := mirrored key control { mirror with access := .readOnly }

/-- A mirror of one byte has a field in the upper half of a word, and one that can only be read has
a field that can only be written. -/
theorem not_admits_mirrors :
    (narrow.validate = .ok () ∧ ∃ r ∈ registersAll narrow.registers,
      narrow.fieldsOf r = .ok [high] ∧ ¬high.bitEnd ≤ r.width) ∧
    (locked.validate = .ok () ∧ ∃ r ∈ registersAll locked.registers,
      locked.fieldsOf r = .ok [key] ∧
        ∃ a, key.access = some a ∧ ∀ b, a.meet r.access ≠ .ok b) := by
  refine ⟨⟨by cbv, { mirror with width := 8, derivedFrom := some "CTRL" }, by decide +kernel,
    by cbv, by decide⟩, ⟨by cbv, { mirror with access := .readOnly, derivedFrom := some "CTRL" },
    by decide +kernel, by cbv, .writeOnly, rfl, ?_⟩⟩
  intro b h
  cases h

end Example

end Peripheral

end RegisterMap
