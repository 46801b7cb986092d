import RegisterMap.Proofs.Descent
import RegisterMap.Peripheral

/-!
# Valid peripherals

A peripheral is valid when every register in it is by itself, and every register it derives another
from is found in it and not derived itself (`Peripheral.validate_eq_ok_iff`). A register by itself
is valid for what it describes, under any name.
-/

namespace RegisterMap

namespace Register

variable {r s : Register}

theorem validate_eq_ok_iff : r.validate = .ok () ↔
    r.checkFieldBits = .ok () ∧ r.checkFieldAccess = .ok () ∧
      ∀ f ∈ r.fields, ∃ es, r.enumerationsOf f = .ok es := by
  rw [validate, within_eq_ok, bind_eq_ok]
  simp only [bind_eq_ok, forM_eq_ok_iff, discard_eq_ok_iff]
  exact ⟨fun ⟨_, hbits, _, haccess, hsources⟩ => ⟨hbits, haccess, hsources⟩,
    fun ⟨hbits, haccess, hsources⟩ => ⟨(), hbits, (), haccess, hsources⟩⟩

/-! ## Fields that share enumerations -/

section Sources

variable {fs : List Field} {f s : Field} {name : String} {es : List Enumeration}

theorem mem_of_enumerationSource? (h : enumerationSource? fs name = some s) :
    s ∈ fs ∧ s.name = name ∧ s.derivedFrom = none := by
  have hfound := List.find?_some h
  simp only [Bool.and_eq_true, beq_iff_eq, Option.isNone_iff_eq_none] at hfound
  exact ⟨List.mem_of_find?_eq_some h, hfound⟩

theorem exists_enumerationSource? (hs : s ∈ fs) (hown : s.derivedFrom = none) :
    ∃ t, enumerationSource? fs s.name = some t :=
  Option.isSome_iff_exists.1 (List.find?_isSome.2 ⟨s, hs, by simp [hown]⟩)

theorem enumerationsAmong_eq_ok_iff (h : f.derivedFrom = some name) :
    enumerationsAmong fs f = .ok es ↔
      ∃ s, enumerationSource? fs name = some s ∧ s.enumerations = es := by
  unfold enumerationsAmong
  rw [h]
  dsimp only
  cases enumerationSource? fs name with
  | none => simp [fail]
  | some s => simp

/-- A field finds its enumerations unless it shares those of another one and there is none of that
name with enumerations of its own. -/
theorem exists_enumerationsAmong_iff : (∃ es, enumerationsAmong fs f = .ok es) ↔
    ∀ name, f.derivedFrom = some name → ∃ s ∈ fs, s.name = name ∧ s.derivedFrom = none := by
  constructor
  · rintro ⟨es, hes⟩ name hname
    obtain ⟨s, hs, -⟩ := (enumerationsAmong_eq_ok_iff hname).1 hes
    exact ⟨s, mem_of_enumerationSource? hs⟩
  · intro h
    cases hname : f.derivedFrom with
    | none => exact ⟨f.enumerations, by rw [enumerationsAmong, hname]⟩
    | some name =>
      obtain ⟨s, hs, rfl, hown⟩ := h name hname
      obtain ⟨t, ht⟩ := exists_enumerationSource? hs hown
      exact ⟨t.enumerations, (enumerationsAmong_eq_ok_iff hname).2 ⟨t, ht, rfl⟩⟩

end Sources

/-! ## Content -/

theorem checkBits_of_width_eq (hwidth : s.width = r.width) {used : Nat} {fs : List Field}
    (h : r.checkBits used fs = .ok ()) : s.checkBits used fs = .ok () := by
  induction fs generalizing used with
  | nil => rfl
  | cons f fs ih =>
    have hexcludes : s.excludes f = r.excludes f := by rw [excludes, excludes, hwidth]
    rw [checkBits] at h ⊢
    rw [hexcludes]
    split at h
    · cases h
    · rename_i hinside
      rw [if_neg hinside]
      split at h
      · rename_i hignored
        rw [if_pos hignored]
        exact ih h
      · rename_i hignored
        rw [if_neg hignored]
        split at h
        · cases h
        · rename_i hapart
          rw [if_neg hapart]
          exact ih h

/-- What a register describes decides whether it is valid. -/
theorem SameContent.validate (h : r.SameContent s) (hr : r.validate = .ok ()) :
    s.validate = .ok () := by
  obtain ⟨hbits, haccess, hsources⟩ := validate_eq_ok_iff.1 hr
  refine validate_eq_ok_iff.2 ⟨?_, ?_, ?_⟩
  · unfold checkFieldBits at hbits ⊢
    rw [h.fields_eq]
    exact checkBits_of_width_eq h.width_eq hbits
  · unfold checkFieldAccess at haccess ⊢
    rw [h.fields_eq, h.access_eq]
    exact haccess
  · unfold enumerationsOf at hsources ⊢
    rw [h.fields_eq]
    exact hsources

end Register

namespace Peripheral

open Element

variable {tree : List Element}

/-- What the register derives from is in the tree, and not derived itself. -/
def Follows (tree : List Element) (r : Register) : Prop :=
  ∀ source, r.derivedFrom = some source →
    ∃ s, findIn? source tree = some s ∧ s.derivedFrom = none

theorem checkRegister_eq_ok_iff {r : Register} :
    checkRegister tree r = .ok () ↔ r.validate = .ok () ∧ Follows tree r := by
  unfold checkRegister Follows
  rw [bind_eq_ok]
  constructor
  · rintro ⟨_, hvalid, h⟩
    refine ⟨hvalid, fun source hsource => ?_⟩
    simp only [hsource] at h
    cases hfound : findIn? source tree with
    | none =>
      simp only [hfound] at h
      cases h
    | some s =>
      cases hs : s.derivedFrom with
      | none => exact ⟨s, rfl, hs⟩
      | some other =>
        simp only [hfound, hs] at h
        cases h
  · rintro ⟨hvalid, h⟩
    refine ⟨(), hvalid, ?_⟩
    cases hsource : r.derivedFrom with
    | none => rfl
    | some source =>
      obtain ⟨s, hfound, hs⟩ := h source hsource
      simp only [hfound, hs]
      rfl

mutual

theorem checkElement_eq_ok_iff : (e : Element) →
    (checkElement tree e = .ok () ↔ ∀ r ∈ e.registers, checkRegister tree r = .ok ())
  | .register r => by rw [checkElement, Element.registers, List.forall_mem_singleton]
  | .cluster c es => by
    rw [checkElement, within_eq_ok, Element.registers]
    exact checkElements_eq_ok_iff es

theorem checkElements_eq_ok_iff : (es : List Element) →
    (checkElements tree es = .ok () ↔ ∀ r ∈ registersAll es, checkRegister tree r = .ok ())
  | [] => by simp [checkElements, registersAll]
  | e :: es => by
    rw [checkElements, bind_eq_ok, registersAll, List.forall_mem_append,
      ← checkElement_eq_ok_iff e, ← checkElements_eq_ok_iff es]
    exact ⟨fun ⟨_, he, hes⟩ => ⟨he, hes⟩, fun ⟨he, hes⟩ => ⟨(), he, hes⟩⟩

end

theorem validate_eq_ok_iff {p : Peripheral} : p.validate = .ok () ↔
    (p.isDerived = true → p.registers = []) ∧
      ∀ r ∈ registersAll p.registers, r.validate = .ok () ∧ Follows p.registers r := by
  simp only [← checkRegister_eq_ok_iff, ← checkElements_eq_ok_iff]
  unfold validate
  by_cases hempty : p.registers = []
  · simp [hempty, checkElements]
  · cases hp : p.isDerived with
    | true => simp [hempty, fail]
    | false => simp [within_eq_ok]

/-! ## What is wrong with an invalid one -/

theorem cause_of_within {α : Type} {place : Place} {x : Except Failure α} {f : Failure}
    (h : within place x = .error f) : ∃ g, x = .error g ∧ f.cause = g.cause := by
  cases x with
  | ok a => cases h
  | error g =>
    cases h
    exact ⟨g, rfl, rfl⟩

/-- A register that is valid by itself fails for what it derives from. -/
theorem cause_of_checkRegister {r : Register} {f : Failure} (hvalid : r.validate = .ok ())
    (h : checkRegister tree r = .error f) :
    ∃ source, r.derivedFrom = some source ∧ f.cause = .unresolvedDerivation source := by
  unfold checkRegister at h
  rw [hvalid] at h
  cases hsource : r.derivedFrom with
  | none => simp [hsource, bind, Except.bind] at h
  | some source =>
    refine ⟨source, rfl, ?_⟩
    simp only [hsource, bind, Except.bind] at h
    split at h
    · split at h
      · cases h
      · obtain ⟨g, hg, hcause⟩ := cause_of_within h
        cases hg
        exact hcause
    · obtain ⟨g, hg, hcause⟩ := cause_of_within h
      cases hg
      exact hcause

/-- The failure is that what one of the registers derives from could not be found. -/
def FailsForSource (rs : List Register) (f : Failure) : Prop :=
  ∃ r ∈ rs, ∃ source, r.derivedFrom = some source ∧ f.cause = .unresolvedDerivation source

mutual

theorem failsForSource_of_checkElement : (e : Element) → {f : Failure} →
    (∀ r ∈ e.registers, r.validate = .ok ()) → checkElement tree e = .error f →
      FailsForSource e.registers f
  | .register r, f, hvalid, h => by
    have hr := List.mem_singleton_self r
    exact ⟨r, hr, cause_of_checkRegister (hvalid r hr) h⟩
  | .cluster c es, f, hvalid, h => by
    rw [checkElement] at h
    obtain ⟨g, hg, hcause⟩ := cause_of_within h
    obtain ⟨r, hr, source, hsource, hfails⟩ := failsForSource_of_checkElements es hvalid hg
    exact ⟨r, hr, source, hsource, hcause.trans hfails⟩

theorem failsForSource_of_checkElements : (es : List Element) → {f : Failure} →
    (∀ r ∈ registersAll es, r.validate = .ok ()) → checkElements tree es = .error f →
      FailsForSource (registersAll es) f
  | [], _, _, h => nomatch h
  | e :: es, f, hvalid, h => by
    rw [registersAll, List.forall_mem_append] at hvalid
    rw [checkElements] at h
    cases he : checkElement tree e with
    | error g =>
      rw [he] at h
      cases h
      obtain ⟨r, hr, hfails⟩ := failsForSource_of_checkElement e hvalid.1 he
      exact ⟨r, List.mem_append_left _ hr, hfails⟩
    | ok u =>
      rw [he] at h
      obtain ⟨r, hr, hfails⟩ := failsForSource_of_checkElements es hvalid.2 h
      exact ⟨r, List.mem_append_right _ hr, hfails⟩

end

end Peripheral

end RegisterMap
