import Mathlib
import RegisterMap.Proofs.Svd.Legible
import RegisterMap.Proofs.Svd.Validity

/-!
# Writing and reading reduced devices

A device that was loaded from a document and reduced is loaded again from the document that is
written for it. Derived peripherals, registers and fields then have the sources that they had, and
what they have of their own (`Generation.load_describe`), as long as the texts of the device can be
written (`Device.IsLegible`), the derived peripherals have no hints and every other derived part
finds its source as the document gives it (`Device.FindsSources`).
-/

namespace RegisterMap

open Svd Xml

/-! ## What is kept -/

/-- The field that is read again is derived from the same field, and described and accessed
alike. -/
structure Field.IsKept (register : Access) (f g : Field) : Prop where
  name : g.name = f.name
  derivedFrom : g.derivedFrom = f.derivedFrom
  description : g.description = f.description
  access : g.accessIn register = f.accessIn register

theorem Field.isKept_settled (register : Access) (f : Field) :
    f.IsKept register (f.settled register) := by
  refine ⟨rfl, rfl, rfl, ?_⟩
  rw [accessIn, accessIn, settled, writtenAccess]
  cases f.access with
  | none => rfl
  | some a =>
    by_cases ha : a = register
    · rw [Option.filter_some, if_neg (by simp [ha]), ha]
      rfl
    · rw [Option.filter_some, if_pos (bne_iff_ne.2 ha)]

/-- The register that is read again is derived from the same register, and has the same description,
width, access and reset values, and the same fields if it has its own. -/
structure Register.IsKept (r s : Register) : Prop where
  name : s.name = r.name
  derivedFrom : s.derivedFrom = r.derivedFrom
  description : s.description = r.description
  width : s.width = r.width
  access : s.access = r.access
  resetValue : s.resetValue = r.resetValue
  resetMask : s.resetMask = r.resetMask
  fields : r.derivedFrom = none → List.Forall₂ (Field.IsKept r.access) r.fields s.fields

theorem Register.isKept_settled (r : Register) : r.IsKept r.settled := by
  refine ⟨rfl, rfl, rfl, rfl, rfl, rfl, rfl, fun hr => ?_⟩
  have hfields : r.settled.fields = r.fields.map (Field.settled r.access) := by simp [settled, hr]
  rw [hfields, List.forall₂_map_right_iff]
  exact List.forall₂_same.2 fun f _ => Field.isKept_settled r.access f

/-- The peripheral that is read again is derived from the same peripheral, and has the same hints
and registers. -/
structure Peripheral.IsKept (p q : Peripheral) : Prop where
  name : q.name = p.name
  derivedFrom : q.derivedFrom = p.derivedFrom
  preferredAccessWidth : q.preferredAccessWidth = p.preferredAccessWidth
  forcedBlockMultiple : q.forcedBlockMultiple = p.forcedBlockMultiple
  registers : List.Forall₂ Register.IsKept (Element.registersAll p.registers)
    (Element.registersAll q.registers)

namespace Peripheral

variable {p source : Peripheral}

theorem isKept_settledAlone (p : Peripheral) : p.IsKept p.settledAlone := by
  refine ⟨rfl, rfl, rfl, rfl, ?_⟩
  rw [settledAlone, Element.settledAll, Element.registersAll_mapRegistersAll,
    List.forall₂_map_right_iff]
  exact List.forall₂_same.2 fun r _ => r.isKept_settled

/-- A derived peripheral is kept if it has no hints, which are not written for it. -/
theorem isKept_settledFrom (hpreferred : p.preferredAccessWidth = 0)
    (hforced : p.forcedBlockMultiple = 0) (hregisters : p.registers = []) :
    p.IsKept (p.settledFrom source) := by
  refine ⟨rfl, rfl, hpreferred.symm, hforced.symm, ?_⟩
  rw [hregisters]
  exact .nil

theorem registers_of_validate (hp : p.isDerived = true) (h : p.validate = .ok ()) :
    p.registers = [] := by
  cases hr : p.registers with
  | nil => rfl
  | cons e es => simp [validate, hp, hr, fail] at h

end Peripheral

/-! ## Devices -/

namespace Device

variable {d : Device} {s : Settings}

/-- The derived peripherals have no hints of their own. -/
def HintsOnSources (d : Device) : Prop :=
  ∀ p ∈ d.peripherals, p.isDerived = true →
    p.preferredAccessWidth = 0 ∧ p.forcedBlockMultiple = 0

instance : DecidablePred HintsOnSources := fun _ => inferInstanceAs (Decidable (∀ _ ∈ _, _))

theorem forall₂_isKept_settled (hhints : d.HintsOnSources) (hvalid : d.validate = .ok ()) :
    List.Forall₂ Peripheral.IsKept d.peripherals d.settled.peripherals := by
  rw [settled, List.forall₂_map_right_iff]
  refine List.forall₂_same.2 fun p hp => ?_
  rw [settledPeripheral]
  cases hsource : p.derivedFrom.bind d.find? with
  | none => exact p.isKept_settledAlone
  | some source =>
    have hderived : p.isDerived = true := by
      obtain ⟨name, hname, -⟩ := Option.bind_eq_some_iff.1 hsource
      rw [Peripheral.isDerived, hname, Option.isSome_some]
    obtain ⟨hpreferred, hforced⟩ := hhints p hp hderived
    exact Peripheral.isKept_settledFrom hpreferred hforced
      (Peripheral.registers_of_validate hderived (validate_eq_ok_iff.1 hvalid p hp).2)

/-- The vectors without owners that were collected are in the order of their indexes. -/
theorem hasSpelledVectors_of_isKeyed (hkeyed : ∀ t ∈ d.vectorTable, t.IsKeyed)
    (h : ∀ i ∈ d.orphans, i.IsSpelled) : d.HasSpelledVectors := by
  refine ⟨h, List.pairwise_map.2 ?_⟩
  rw [orphans, unownedVectors]
  refine List.Pairwise.filter _ ?_
  cases ht : d.vectorTable with
  | none => exact .nil
  | some t =>
    refine List.Pairwise.filter _ (List.pairwise_map.2 ?_)
    refine t.sorted.imp_of_mem fun {a b} ha hb hab => ?_
    have hindex {e : Int × Interrupt} (he : e ∈ t.entries) : e.2.index = e.1 :=
      hkeyed t ht e.1 e.2 (VectorTable.mem_entries_iff.1 he)
    rw [hindex ha, hindex hb]
    exact hab

/-- A device that is read from its document is loaded from it. -/
theorem load_svdText (hformat : s.sourceFormat = .xml) (hspelled : d.IsSpelled s.commonNames)
    (hsources : d.FindsSources) (hvectors : d.HasSpelledVectors) (hvalid : d.validate = .ok ()) :
    load s d.svdText = .pure d.settled := by
  rw [load, hformat, read, readSvd_svdText hspelled hsources hvectors hvalid]
  simp only [Outcome.within, Outcome.pure, Option.map_none, Outcome.andThen,
    validate_settled hvalid, within_ok, Outcome.check, List.append_nil]

/-- What a reduction leaves is valid, with every vector under its own index. -/
theorem validate_of_reduce {e : Device} (h : (d.reduce s).toExcept = .ok e) :
    e.validate = .ok () ∧ ∀ t ∈ e.vectorTable, t.IsKeyed := by
  unfold reduce at h
  simp only [Outcome.toExcept_andThen, bind_eq_ok] at h
  obtain ⟨d₂, ⟨d₁, -, h₁⟩, h₂⟩ := h
  obtain ⟨hvalid, rfl⟩ := Outcome.check_ok (Outcome.within_ok h₂)
  rw [Outcome.toExcept_ofExcept] at h₁
  exact ⟨hvalid, isKeyed_collectVectors h₁⟩

end Device

namespace Generation

/-- **Round trip of a reduced device.** The document that is written for the device of a document in
its shortest form is loaded, and what is derived in it has kept its source and what it has of its
own. -/
theorem load_describe {s : Settings} {text : String} {d : Device} (hformat : s.sourceFormat = .xml)
    (h : (prepare s text).toExcept = .ok d) (hlegible : d.IsLegible) (hsources : d.FindsSources)
    (hhints : d.HintsOnSources) :
    ∃ e, Device.load s (d.describe .xml) = .pure e ∧
      List.Forall₂ Peripheral.IsKept d.peripherals e.peripherals := by
  obtain ⟨hspelled, hvectors⟩ := Device.isSpelled_of_prepare hformat h hlegible
  rw [prepare, Outcome.toExcept_andThen, bind_eq_ok] at h
  obtain ⟨d₀, -, h⟩ := h
  obtain ⟨hvalid, hkeyed⟩ := Device.validate_of_reduce h
  refine ⟨d.settled, ?_, Device.forall₂_isKept_settled hhints hvalid⟩
  exact Device.load_svdText hformat hspelled hsources
    (Device.hasSpelledVectors_of_isKeyed hkeyed hvectors) hvalid

section Example

/-- The device of its own document, reduced. -/
private theorem prepare_svdText {s : Settings} {d e : Device} (hformat : s.sourceFormat = .xml)
    (hspelled : d.IsSpelled s.commonNames) (hsources : d.FindsSources)
    (hvectors : d.HasSpelledVectors) (hvalid : d.validate = .ok ())
    (h : (d.settled.reduce s).toExcept = .ok e) : (prepare s d.svdText).toExcept = .ok e := by
  rw [prepare, Device.load_svdText hformat hspelled hsources hvectors hvalid,
    Outcome.pure_andThen, h]

/-- A field that counts with one bit. -/
private def flag (name : String) (bit : Nat) : Field :=
  { name, bitOffset := bit, bitWidth := 1
    enumerations := [{ name := "set", value := 1, mask := 1, text := some "1" },
      { name := "clear" }] }

private def serial (name : String) (base : Nat) : Peripheral :=
  { name, baseAddress := base, prependToName := some "UART"
    registers := [
      .register { Register.plain "RX" 0 16 with
        description := "Receiver", fields := [flag "FULL" 0, flag "LOST" 1] },
      .register { Register.plain "TX" 2 16 with
        description := "Transmitter", resetValue := 1, fields := [flag "FULL" 0, flag "LOST" 1] }] }

/-- Two ports with the same registers, whose receivers and transmitters have the same fields. -/
private def serials : Device :=
  { name := "D", peripherals := [serial "UART0" 0x1000, serial "UART1" 0x2000] }

/-- The ports in their shortest form. -/
private def folded : Device :=
  { name := "D"
    peripherals := [
      { serial "UART0" 0x1000 with
        addressBlocks := [{ offset := 0, size := 4, width := 16 }]
        registers := [
          .register { Register.plain "RX" 0 16 with
            description := "Receiver"
            fields := [flag "FULL" 0,
              { flag "LOST" 1 with derivedFrom := some "FULL", enumerations := [] }] },
          .register { Register.plain "TX" 2 16 with
            description := "Transmitter", resetValue := 1, derivedFrom := some "RX" }] },
      (serial "UART1" 0x2000).deriveFrom "UART0"]
    vectorTable := some .empty }

private def folding : Settings := { foldRegisters := true, shareEnumerations := true }

theorem load_describe_serials :
    ∃ e, folding.sourceFormat = .xml ∧ (prepare folding serials.svdText).toExcept = .ok folded ∧
      folded.IsLegible ∧ folded.FindsSources ∧ folded.HintsOnSources ∧
      Device.load folding (folded.describe .xml) = .pure e ∧
      List.Forall₂ Peripheral.IsKept folded.peripherals e.peripherals := by
  have heval : (serials.settled.reduce folding).toExcept.toOption = some folded := by cbv
  have hprepared := prepare_svdText (s := folding) rfl (by decide +kernel) (by decide +kernel)
    (by decide +kernel) (by decide +kernel) (eq_ok_of_toOption heval)
  have hlegible : folded.IsLegible := by decide +kernel
  have hsources : folded.FindsSources := by decide +kernel
  have hhints : folded.HintsOnSources := by decide +kernel
  obtain ⟨e, he, hkept⟩ := load_describe rfl hprepared hlegible hsources hhints
  exact ⟨e, rfl, hprepared, hlegible, hsources, hhints, he, hkept⟩

private def timer (name : String) (base : Nat) : Peripheral :=
  { name, baseAddress := base, preferredAccessWidth := 8
    addressBlocks := [{ offset := 0, size := 4, width := 8 }]
    registers := [.register (.plain "CNT" 0 32)] }

/-- Two timers with the same registers and the same hint. -/
private def timers : Device :=
  { name := "D", peripherals := [timer "TIM0" 0x1000, timer "TIM1" 0x2000] }

/-- The hint of the second timer is lost when it was derived from the first. -/
theorem load_describe_timers :
    ∃ d e, (prepare {} timers.svdText).toExcept = .ok d ∧
      Device.load {} (d.describe .xml) = .pure e ∧
      d.peripherals.map (fun p => (p.derivedFrom, p.preferredAccessWidth)) =
        [(none, 8), (some "TIM0", 8)] ∧
      e.peripherals.map (fun p => (p.derivedFrom, p.preferredAccessWidth)) =
        [(none, 8), (some "TIM0", 0)] := by
  have heval : ((timers.settled.reduce {}).toExcept.toOption.filter fun d => decide <|
      d.peripherals.map (fun p => (p.derivedFrom, p.preferredAccessWidth)) =
        [(none, 8), (some "TIM0", 8)] ∧
      d.settled.peripherals.map (fun p => (p.derivedFrom, p.preferredAccessWidth)) =
        [(none, 8), (some "TIM0", 0)] ∧
      d.IsSpelled true ∧ d.FindsSources ∧ d.HasSpelledVectors).isSome = true := by decide +kernel
  obtain ⟨d, hd⟩ := Option.isSome_iff_exists.1 heval
  obtain ⟨hd, hall⟩ := Option.filter_eq_some_iff.1 hd
  obtain ⟨hhints, hlost, hspelled, hsources, hvectors⟩ := of_decide_eq_true hall
  have hd := eq_ok_of_toOption hd
  have hprepared := prepare_svdText (s := {}) rfl (by decide +kernel) (by decide +kernel)
    (by decide +kernel) (by decide +kernel) hd
  have hload := Device.load_svdText (s := {}) rfl hspelled hsources hvectors
    (Device.validate_of_reduce hd).1
  exact ⟨d, d.settled, hprepared, hload, hhints, hlost⟩

end Example

end Generation

end RegisterMap
