import RegisterMap.Proofs.Svd.Validity

/-!
# Writing and reading devices without derivations

Where nothing is derived, a valid device that is spelled so that it can be read is read from its
document as it was, apart from the vectors: those that no peripheral owns are all that is written
(`Device.readSvd_svdText_of_isUnderived`). They need names, or else the document is refused
(`Device.readSvd_svdText_refused`).
-/

namespace RegisterMap

open Svd Xml

/-! ## Fields and registers -/

namespace Enumeration

/-- A default has a name and a description, and nothing else. -/
def IsBare (e : Enumeration) : Prop := e.isDefault = true → e.value = 0 ∧ e.text = none

instance : DecidablePred IsBare := fun _ => inferInstanceAs (Decidable (_ → _))

theorem settled_eq {e : Enumeration} (h : e.IsBare) : e.settled = e := by
  unfold settled
  split
  · rename_i hdefault
    obtain ⟨hvalue, htext⟩ := h hdefault
    have hmask : e.mask = 0 := by simpa [isDefault] using hdefault
    cases e
    simp_all [asDefault]
  · rfl

end Enumeration

namespace Field

variable {f : Field} {register : Access}

/-- The field is not derived, and has neither the access of its register nor a default enumeration
with a value or a text. -/
@[mk_iff]
structure IsUnderived (register : Access) (f : Field) : Prop where
  own : f.derivedFrom = none
  access : f.access ≠ some register
  enumerations : ∀ e ∈ f.enumerations, e.IsBare

instance (register : Access) : DecidablePred (IsUnderived register) :=
  fun f => decidable_of_iff' _ (isUnderived_iff register f)

theorem settled_eq (h : f.IsUnderived register) : f.settled register = f := by
  obtain ⟨hown, haccess, hbare⟩ := h
  have hwritten : f.writtenAccess register = f.access := by
    rw [writtenAccess]
    cases ha : f.access with
    | none => rfl
    | some a =>
      have hne : a ≠ register := fun he => haccess (he ▸ ha)
      rw [Option.filter_some, if_pos (bne_iff_ne.2 hne)]
  have hsettled : f.enumerations.map Enumeration.settled = f.enumerations :=
    (List.map_congr_left fun e he => Enumeration.settled_eq (hbare e he)).trans (List.map_id _)
  simp only [settled, hwritten, hown, hsettled, Option.isNone_none, if_true]
  rw [← hown]

end Field

namespace Register

variable {r : Register}

/-- Neither the register nor one of its fields is derived. -/
@[mk_iff]
structure IsUnderived (r : Register) : Prop where
  own : r.derivedFrom = none
  fields : ∀ f ∈ r.fields, f.IsUnderived r.access

instance : DecidablePred IsUnderived := fun r => decidable_of_iff' _ (isUnderived_iff r)

theorem settled_eq (h : r.IsUnderived) (hintact : r.deleted = false) : r.settled = r := by
  obtain ⟨hown, hfields⟩ := h
  have hsettled : r.fields.map (Field.settled r.access) = r.fields :=
    (List.map_congr_left fun f hf => Field.settled_eq (hfields f hf)).trans (List.map_id _)
  simp only [settled, hown, hsettled, ← hintact, Option.isNone_none, if_true]
  rw [← hown]

theorem findsSources_of_isUnderived (h : r.IsUnderived) (scopes : List (List Element)) :
    r.FindsSources scopes := by
  obtain ⟨hown, hfields⟩ := h
  refine ⟨fun s hs => ?_, fun _ i hi s hs => ?_⟩
  · rw [hown] at hs
    cases hs
  · rw [(hfields _ (List.getElem_mem hi)).own] at hs
    cases hs

end Register

/-! ## Trees -/

namespace Element

mutual

/-- No register in the element is derived. -/
def isUnderived : Element → Bool
  | register r => decide r.IsUnderived
  | cluster _ es => areUnderived es

/-- No register in the elements is derived. -/
def areUnderived : List Element → Bool
  | [] => true
  | e :: es => e.isUnderived && areUnderived es

end

mutual

theorem mapRegisters_settled : (e : Element) → e.isUnderived = true → e.isSpelled = true →
    e.mapRegisters Register.settled = e
  | register r, h, hspelled => by
    have h : r.IsUnderived := by simpa [isUnderived] using h
    have hspelled : r.IsSpelled := by simpa [isSpelled] using hspelled
    rw [mapRegisters, Register.settled_eq h hspelled.intact]
  | cluster c es, h, hspelled => by
    rw [isSpelled, Bool.and_eq_true] at hspelled
    rw [mapRegisters]
    exact congrArg (cluster c) (settledAll_eq es h hspelled.2)

/-- Nothing is settled where nothing is derived. -/
theorem settledAll_eq : (es : List Element) → areUnderived es = true → areSpelled es = true →
    settledAll es = es
  | [], _, _ => rfl
  | e :: es, h, hspelled => by
    rw [areUnderived, Bool.and_eq_true] at h
    rw [areSpelled, Bool.and_eq_true] at hspelled
    have hcons : settledAll (e :: es) = e.mapRegisters Register.settled :: settledAll es := rfl
    rw [hcons, mapRegisters_settled e h.1 hspelled.1, settledAll_eq es h.2 hspelled.2]

end

mutual

theorem findsSources_of_isUnderived (scopes : List (List Element)) :
    (e : Element) → e.isUnderived = true → e.findsSources scopes = true
  | register r, h => by
    have h : r.IsUnderived := by simpa [isUnderived] using h
    rw [findsSources, decide_eq_true_eq]
    exact Register.findsSources_of_isUnderived h scopes
  | cluster c es, h => by
    rw [findsSources]
    exact findSources_of_areUnderived scopes [] es h

/-- No sources are looked for where nothing is derived. -/
theorem findSources_of_areUnderived (outer : List (List Element)) (done : List Element) :
    (es : List Element) → areUnderived es = true → findSources outer done es = true
  | [], _ => rfl
  | e :: es, h => by
    rw [areUnderived, Bool.and_eq_true] at h
    rw [findSources, Bool.and_eq_true]
    exact ⟨findsSources_of_isUnderived _ e h.1, findSources_of_areUnderived _ _ es h.2⟩

end

end Element

/-! ## Peripherals and devices -/

/-- No peripheral owns the interrupt, and its handler has the usual name. -/
@[mk_iff]
structure Interrupt.IsPlain (i : Interrupt) : Prop where
  handler : i.handler = none
  peripherals : i.peripherals = []

instance : DecidablePred Interrupt.IsPlain :=
  fun i => decidable_of_iff' _ (Interrupt.isPlain_iff i)

theorem Interrupt.settled_eq {i : Interrupt} (h : i.IsPlain) : i.settled = i := by
  rw [settled, ← h.handler, ← h.peripherals]

namespace Peripheral

variable {p : Peripheral} {common : Bool}

/-- Neither the peripheral nor anything in it is derived, and its interrupts are as they were
read. -/
@[mk_iff]
structure IsUnderived (p : Peripheral) : Prop where
  own : p.derivedFrom = none
  registers : Element.areUnderived p.registers = true
  interrupts : ∀ i ∈ p.interrupts, i.IsPlain

instance : DecidablePred IsUnderived := fun p => decidable_of_iff' _ (isUnderived_iff p)

theorem settledAlone_eq (h : p.IsUnderived) (hspelled : p.IsSpelled common) :
    p.settledAlone = p := by
  have hregisters := Element.settledAll_eq p.registers h.registers (hspelled.registers h.own)
  have hinterrupts : p.interrupts.map Interrupt.settled = p.interrupts :=
    (List.map_congr_left fun i hi => Interrupt.settled_eq (h.interrupts i hi)).trans
      (List.map_id _)
  rw [settledAlone, hregisters, hinterrupts]

end Peripheral

namespace Device

variable {d : Device} {common : Bool}

/-- Nothing in the device is derived. -/
def IsUnderived (d : Device) : Prop := ∀ p ∈ d.peripherals, p.IsUnderived

instance : DecidablePred IsUnderived := fun _ => inferInstanceAs (Decidable (∀ _ ∈ _, _))

theorem findsSources_of_isUnderived (h : d.IsUnderived) : d.FindsSources where
  peripherals i hi s hs := by
    rw [(h _ (List.getElem_mem hi)).own] at hs
    cases hs
  registers p hp _ := Element.findSources_of_areUnderived [] [] p.registers (h p hp).registers

theorem settled_eq (h : d.IsUnderived) (hspelled : d.IsSpelled common) :
    d.settled = { d with vectorTable := d.writtenVectors } := by
  have hsettled : d.peripherals.map d.settledPeripheral = d.peripherals := by
    refine (List.map_congr_left fun p hp => ?_).trans (List.map_id _)
    rw [settledPeripheral_of_none d (h p hp).own]
    exact Peripheral.settledAlone_eq (h p hp) (hspelled.peripherals p hp)
  rw [settled, hsettled]

/-- **Round trip without derivations.** A valid device in which nothing is derived is read from its
document as it was. Only its vectors differ: those that no peripheral owns are left of them, without
the exceptions of the core. -/
theorem readSvd_svdText_of_isUnderived (h : d.IsUnderived) (hspelled : d.IsSpelled false)
    (hvectors : d.HasSpelledVectors) (hvalid : d.validate = .ok ()) :
    readSvd false d.svdText = .pure { d with vectorTable := d.writtenVectors } := by
  rw [readSvd_svdText hspelled (findsSources_of_isUnderived h) hvectors hvalid,
    settled_eq h hspelled]

section Example

/-- A watchdog with an array of windows, each with a register of two fields. -/
private def watchdog : Peripheral where
  name := "WDOG"
  description := "Watchdog"
  groupName := some "WDG"
  baseAddress := 0x40052000
  width := 16
  preferredAccessWidth := 16
  addressBlocks := [{ offset := 0, size := 12, width := 16, usage := "registers" }]
  interrupts := [{ index := 22, name := "WDOG", description := "Watchdog & reset" }]
  registers := [
    .register {
      name := "CTRL", description := "Control", offset := 0, width := 16, access := .readWrite
      resetValue := 0x1d3, resetMask := 0xffff
      fields := [
        { name := "EN", bitOffset := 0, bitWidth := 1, access := some .writeOnce
          enumerations := [
            { name := "on", description := "Counts", value := 1, mask := 1, text := some "1" },
            { name := "off", description := "Does not" }] },
        { name := "STATE", bitOffset := 1, bitWidth := 2
          enumerations := [{ name := "late", value := 2, mask := 2, text := some "#1x" }] }] },
    .cluster { name := "WINDOW%s", offset := 4, dim := some ⟨4, ["LOW", "HIGH"]⟩ } [
      .register {
        Register.plain "LIMIT" 0 16 (some (.counted 2 2)) with flags.keepAsArray := true }]]

/-- A device with a vector that no peripheral owns. -/
private def watched : Device where
  name := "D"
  equivalentDevices := ["D1", "D2"]
  cpu := some {}
  peripherals := [watchdog]
  vectorTable := some (VectorTable.empty.insert 3 { index := 3, name := "SPARE" })

theorem readSvd_svdText_watched :
    watched.IsUnderived ∧ watched.IsSpelled false ∧ watched.HasSpelledVectors ∧
      watched.validate = .ok () ∧ readSvd false watched.svdText = .pure watched := by
  have hunderived : watched.IsUnderived := by decide +kernel
  have hspelled : watched.IsSpelled false := by decide +kernel
  have hvectors : watched.HasSpelledVectors := by decide +kernel
  have hvalid : watched.validate = .ok () := by decide +kernel
  have hread := readSvd_svdText_of_isUnderived hunderived hspelled hvectors hvalid
  exact ⟨hunderived, hspelled, hvectors, hvalid, hread⟩

/-- A device whose only vector has no name. -/
private def nameless : Device where
  name := "D"
  vectorTable := some (VectorTable.empty.insert 3 { index := 3, name := "" })

/-- A device whose vectors have other numbers than those of their entries. -/
private def misplaced : Device where
  name := "D"
  vectorTable := some ((VectorTable.empty.insert 5 { index := 3, name := "X" }).insert 6
    { index := 2, name := "Y" })

/-- Vectors that no peripheral owns are written whether they can be read or not. -/
theorem readSvd_svdText_refused :
    (nameless.IsUnderived ∧ nameless.IsSpelled false ∧ nameless.validate = .ok () ∧
      (readSvd false nameless.svdText).toExcept = .error Cause.unnamedInterrupt) ∧
    (misplaced.IsUnderived ∧ misplaced.IsSpelled false ∧ misplaced.validate = .ok () ∧
      (readSvd false misplaced.svdText).toExcept = .error (Cause.interruptOrder "Y")) := by
  have hread {d : Device} (hplain : d.toSvd.isPlain = true)
      (hresolved : d.toSvd.isResolved [] = true) :
      readSvd false d.svdText = ofSvd false (d.toSvd.laid 0) := by
    rw [readSvd, svdText, toSvd, Node.ofText?_document hplain hresolved]
  refine ⟨⟨by decide +kernel, by decide +kernel, rfl, ?_⟩,
    ⟨by decide +kernel, by decide +kernel, rfl, ?_⟩⟩
  · rw [hread (by decide +kernel) (by decide +kernel)]
    decide +kernel
  · rw [hread (by decide +kernel) (by decide +kernel)]
    decide +kernel

end Example

end Device

end RegisterMap
