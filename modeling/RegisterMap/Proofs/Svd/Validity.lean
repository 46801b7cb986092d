import RegisterMap.Proofs.Svd.Device
import RegisterMap.Proofs.Validity

/-!
# The checks on what was read again

A device that is valid is so when it has been written and read again (`Device.validate_settled`):
fields keep their bits and their sources, and lose an access only to have that of their register.
-/

namespace RegisterMap

open Svd Xml

namespace Register

variable {r : Register} {fields : List Field}

theorem checkBits_map_settled (r s : Register) (hname : s.name = r.name)
    (hwidth : s.width = r.width) (register : Access) (used : Nat) (fields : List Field) :
    s.checkBits used (fields.map (Field.settled register)) = r.checkBits used fields := by
  induction fields generalizing used with
  | nil => rfl
  | cons f fs ih =>
    have hexcludes : s.excludes (f.settled register) = r.excludes f := by
      rw [excludes, excludes, hwidth]
      rfl
    have hmask : (f.settled register).mask = f.mask := rfl
    have hoverlap : (f.settled register).ignoreOverlap = f.ignoreOverlap := rfl
    have hfield : (f.settled register).name = f.name := rfl
    rw [List.map_cons, checkBits, checkBits, hexcludes, hmask, hoverlap, hfield, hname, ih, ih]

theorem enumerationSource?_map_settled (register : Access) (fields : List Field) (name : String) :
    enumerationSource? (fields.map (Field.settled register)) name =
      (enumerationSource? fields name).map (Field.settled register) := by
  rw [enumerationSource?, List.find?_map]
  rfl

/-- The enumerations of a field are found among its siblings that were settled. -/
theorem enumerationsAmong_map_settled (register : Access) {f : Field} {es : List Enumeration}
    (h : enumerationsAmong fields f = .ok es) :
    ∃ es', enumerationsAmong (fields.map (Field.settled register)) (f.settled register) =
      .ok es' := by
  have hderived : (f.settled register).derivedFrom = f.derivedFrom := rfl
  unfold enumerationsAmong at h ⊢
  rw [hderived]
  cases hf : f.derivedFrom with
  | none => exact ⟨_, rfl⟩
  | some name =>
    simp only [hf] at h
    simp only [enumerationSource?_map_settled]
    cases hsource : enumerationSource? fields name with
    | none => simp [hsource, fail] at h
    | some source => exact ⟨_, rfl⟩

theorem validate_settled (h : r.validate = .ok ()) : r.settled.validate = .ok () := by
  obtain ⟨hbits, haccess, hsources⟩ := validate_eq_ok_iff.1 h
  cases hr : r.derivedFrom with
  | some source =>
    have hnone : r.settled.fields = [] := by simp [settled, hr]
    rw [validate_eq_ok_iff, checkFieldBits, checkFieldAccess, hnone]
    exact ⟨rfl, rfl, List.forall_mem_nil _⟩
  | none =>
    have hfields : r.settled.fields = r.fields.map (Field.settled r.access) := by simp [settled, hr]
    rw [validate_eq_ok_iff]
    refine ⟨?_, ?_, ?_⟩
    · rw [checkFieldBits, hfields, checkBits_map_settled r r.settled rfl rfl]
      exact hbits
    · rw [checkFieldAccess, forM_eq_ok_iff] at haccess ⊢
      rw [hfields]
      intro g hg
      obtain ⟨f, hf, rfl⟩ := List.mem_map.1 hg
      have hone := haccess f hf
      have hwritten : (Field.settled r.access f).access = f.writtenAccess r.access := rfl
      have hown : r.settled.access = r.access := rfl
      simp only [hwritten, hown]
      cases hw : f.writtenAccess r.access with
      | none => rfl
      | some a =>
        rw [(Option.filter_eq_some_iff.1 hw).1] at hone
        exact hone
    · rw [hfields]
      intro g hg
      obtain ⟨f, hf, rfl⟩ := List.mem_map.1 hg
      obtain ⟨es, hes⟩ := hsources f hf
      rw [enumerationsOf, hfields]
      exact enumerationsAmong_map_settled r.access hes

end Register

namespace Peripheral

variable {tree : List Element} {p source : Peripheral}

theorem checkRegister_settled {r : Register} (h : checkRegister tree r = .ok ()) :
    checkRegister (Element.settledAll tree) r.settled = .ok () := by
  have hderived : r.settled.derivedFrom = r.derivedFrom := rfl
  rw [checkRegister, bind_eq_ok] at h ⊢
  obtain ⟨_, hvalid, hsource⟩ := h
  refine ⟨(), Register.validate_settled hvalid, ?_⟩
  rw [hderived]
  cases hr : r.derivedFrom with
  | none => rfl
  | some name =>
    simp only [hr] at hsource
    simp only [Element.settledAll, Register.findIn?_settled]
    cases hfound : Element.findIn? name tree with
    | none =>
      rw [hfound] at hsource
      cases hsource
    | some s =>
      rw [hfound] at hsource
      exact hsource

mutual

theorem checkElement_settled :
    (e : Element) → checkElement tree e = .ok () →
      checkElement (Element.settledAll tree) (e.mapRegisters Register.settled) = .ok ()
  | .register r, h => by
    rw [Element.mapRegisters, checkElement]
    rw [checkElement] at h
    exact checkRegister_settled h
  | .cluster c es, h => by
    rw [Element.mapRegisters, checkElement, within_eq_ok]
    rw [checkElement, within_eq_ok] at h
    exact checkElements_settled es h

theorem checkElements_settled :
    (es : List Element) → checkElements tree es = .ok () →
      checkElements (Element.settledAll tree) (Element.settledAll es) = .ok ()
  | [], _ => rfl
  | e :: es, h => by
    rw [checkElements, bind_eq_ok] at h
    obtain ⟨_, he, hes⟩ := h
    have hcons : Element.settledAll (e :: es) =
        e.mapRegisters Register.settled :: Element.settledAll es := rfl
    rw [hcons, checkElements, bind_eq_ok]
    exact ⟨(), checkElement_settled e he, checkElements_settled es hes⟩

end

theorem validate_settledFrom (p source : Peripheral) :
    (p.settledFrom source).validate = .ok () := by
  simp [validate, settledFrom, checkElements]

theorem validate_settledAlone (hp : p.derivedFrom = none) (h : p.validate = .ok ()) :
    p.settledAlone.validate = .ok () := by
  have hown : p.isDerived = false := by simp [isDerived, hp]
  rw [validate, hown, Bool.false_and, if_neg Bool.false_ne_true, within_eq_ok] at h
  have hown' : p.settledAlone.isDerived = false := hown
  rw [validate, hown', Bool.false_and, if_neg Bool.false_ne_true, within_eq_ok]
  exact checkElements_settled p.registers h

end Peripheral

namespace Device

variable {d : Device} {common : Bool}

theorem find?_settled (d : Device) (name : String) :
    d.settled.find? name = (d.find? name).map d.settledPeripheral :=
  find?_map_settledPeripheral d d.peripherals name

/-- A peripheral is resolved to what was read for its source. -/
theorem resolve_settled {p s : Peripheral} (h : d.resolve p = .ok s) :
    ∃ t, d.settled.resolve (d.settledPeripheral p) = .ok t := by
  unfold resolve at h ⊢
  rw [derivedFrom_settledPeripheral]
  cases hp : p.derivedFrom with
  | none => exact ⟨_, rfl⟩
  | some source =>
    simp only [hp] at h
    cases hfound : d.find? source with
    | none => simp [hfound, fail] at h
    | some g =>
      cases hg : g.isDerived with
      | true => simp [hfound, Option.filter_some, hg, fail] at h
      | false =>
        have hkept : (d.settledPeripheral g).isDerived = false := by
          rw [Peripheral.isDerived, derivedFrom_settledPeripheral]
          exact hg
        refine ⟨d.settledPeripheral g, ?_⟩
        simp only [find?_settled, hfound, Option.map_some, Option.filter_some, hkept,
          Bool.not_false, if_true]

theorem validate_settledPeripheral {p s : Peripheral} (hs : d.resolve p = .ok s)
    (h : p.validate = .ok ()) : (d.settledPeripheral p).validate = .ok () := by
  rw [settledPeripheral]
  cases hfound : p.derivedFrom.bind d.find? with
  | some source => exact p.validate_settledFrom source
  | none =>
    refine Peripheral.validate_settledAlone ?_ h
    cases hp : p.derivedFrom with
    | none => rfl
    | some source =>
      rw [hp, Option.bind_some] at hfound
      simp [resolve, hp, hfound, fail] at hs

/-- **Checks.** A valid device is valid when it has been read again. -/
theorem validate_settled (h : d.validate = .ok ()) : d.settled.validate = .ok () := by
  rw [validate_eq_ok_iff] at h ⊢
  intro q hq
  obtain ⟨p, hp, rfl⟩ := List.mem_map.1 hq
  obtain ⟨⟨s, hs⟩, hvalid⟩ := h p hp
  exact ⟨resolve_settled hs, validate_settledPeripheral hs hvalid⟩

/-- **Writing and reading.** A valid device that is spelled so that it can be read, and whose
derived parts find their sources, is read from its document as it is settled. -/
theorem readSvd_svdText (h : d.IsSpelled common) (hsources : d.FindsSources)
    (hvectors : d.HasSpelledVectors) (hvalid : d.validate = .ok ()) :
    readSvd common d.svdText = .pure d.settled := by
  have hnamed : d.settled.name.isEmpty = false := by simpa [settled] using h.named
  have hcheck : d.settled.checkRead = .ok () := by
    rw [checkRead, hnamed, if_neg Bool.false_ne_true, validate_settled hvalid]
    rfl
  rw [readSvd, ofText?_svdText h hsources hvectors]
  simp only [ofSvd, beq_self_eq_true, if_true, stepAll_root h hsources hvectors,
    Outcome.pure_andThen, hcheck, Outcome.check]
  rfl

end Device

end RegisterMap
