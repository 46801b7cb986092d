import RegisterMap.Generation
import RegisterMap.Proofs.Derivation
import RegisterMap.Proofs.Description.Devices
import RegisterMap.Proofs.Header.Mapping
import RegisterMap.Proofs.Json

/-!
# Descriptions that are read again

A valid device that is written as JSON and read again comes back as it was, but for the names of
handlers, which are not written. Where these were those of the core exceptions anyway, its header
stays the same (`Device.load_describe_json`).
-/

namespace RegisterMap

/-! ## Handlers of core exceptions -/

namespace Interrupt

/-- The handler, if one is named, is that of the core exception of the same number and name. -/
def HasCoreHandler (i : Interrupt) : Prop :=
  ∀ h ∈ i.handler, ∃ e ∈ CoreException.all, e.index = i.index ∧ e.name = i.name ∧ e.handler = h

instance : DecidablePred HasCoreHandler := fun i =>
  inferInstanceAs (Decidable (∀ h ∈ i.handler, _))

/-- The handler of a core exception is found by the number and the name of the exception. -/
theorem handlerName_withoutHandler {i : Interrupt} (h : i.HasCoreHandler) :
    i.withoutHandler.handlerName = i.handlerName := by
  obtain ⟨index, name, description, handler, peripherals⟩ := i
  cases handler with
  | none => rfl
  | some handler =>
    obtain ⟨e, he, rfl, rfl, rfl⟩ := h handler rfl
    have hnegative : ∀ e ∈ CoreException.all, e.index < 0 := by decide
    have hfound : ∀ e ∈ CoreException.all, CoreException.all.find?
        (fun c => c.index == e.index && c.name == e.name) = some e := by
      simp [CoreException.all]
    simp only [handlerName, withoutHandler, if_pos (hnegative e he), hfound e he]

end Interrupt

namespace VectorTable

/-- The handlers that the table names are those of the core exceptions. -/
def HasCoreHandlers (t : VectorTable) : Prop := ∀ e ∈ t.entries, e.2.HasCoreHandler

instance : DecidablePred HasCoreHandlers := fun t =>
  inferInstanceAs (Decidable (∀ e ∈ t.entries, _))

theorem hasCoreHandlers_addAll {t u : VectorTable} {is : List Interrupt} (ht : t.HasCoreHandlers)
    (his : ∀ i ∈ is, i.HasCoreHandler) (h : (t.addAll is).toExcept = .ok u) :
    u.HasCoreHandlers :=
  forall_entries_addAll (fun _ _ ha _ => ha) ht his h

/-- The core exceptions bring their own handlers. -/
theorem hasCoreHandlers_addCoreExceptions {t u : VectorTable} {small : Bool}
    (ht : t.HasCoreHandlers) (h : (t.addCoreExceptions small).toExcept = .ok u) :
    u.HasCoreHandlers := by
  refine hasCoreHandlers_addAll ht (fun i hi => ?_) h
  obtain ⟨e, he, rfl⟩ := List.mem_map.1 hi
  intro handler hhandler
  exact ⟨e, (List.mem_filter.1 he).1, rfl, rfl, Option.some.inj hhandler⟩

theorem toList_withoutHandlers (t : VectorTable) :
    t.withoutHandlers.toList = t.toList.map Interrupt.withoutHandler := by
  simp only [toList, withoutHandlers, List.map_map, Function.comp_def]

end VectorTable

/-! ## Headers without handlers -/

namespace Vectors

theorem numberLines_withoutHandler (is : List Interrupt) :
    numberLines (is.map Interrupt.withoutHandler) = numberLines is := by
  induction is with
  | nil => rfl
  | cons i is ih =>
    rw [List.map_cons, numberLines, numberLines, ih, List.map_map]
    rfl

theorem enumeration_withoutHandlers (t : VectorTable) :
    enumeration t.withoutHandlers = enumeration t := by
  rw [enumeration, t.toList_withoutHandlers, numberLines_withoutHandler, enumeration]

theorem prototypes_withoutHandlers {t : VectorTable} (h : t.HasCoreHandlers) :
    prototypes t.withoutHandlers = prototypes t := by
  have hlines : t.withoutHandlers.toList.map prototypeLine = t.toList.map prototypeLine := by
    rw [t.toList_withoutHandlers, List.map_map]
    refine List.map_congr_left fun i hi => ?_
    obtain ⟨e, he, rfl⟩ := List.mem_map.1 hi
    simp only [Function.comp_apply, prototypeLine, Interrupt.handlerName_withoutHandler (h e he)]
    rfl
  rw [prototypes, hlines, prototypes]

end Vectors

namespace Peripheral

theorem keepsIdentity_withoutHandlers : KeepsIdentity withoutHandlers where
  name _ := rfl
  derivedFrom _ := rfl
  headerStructName _ := rfl
  groupName _ := rfl
  baseAddress _ := rfl
  numberNames p := by
    rw [withoutHandlers, List.map_map]
    rfl

end Peripheral

namespace Device

variable {d : Device}

/-- The handlers that the vector table names are those of the core exceptions. -/
def HasCoreHandlers (d : Device) : Prop := ∀ t ∈ d.vectorTable, t.HasCoreHandlers

instance : DecidablePred HasCoreHandlers := fun d =>
  inferInstanceAs (Decidable (∀ t ∈ d.vectorTable, _))

theorem validate_withoutHandlers (h : d.validate = .ok ()) :
    d.withoutHandlers.validate = .ok () := by
  rw [validate_eq_ok_iff] at h ⊢
  intro p hp
  obtain ⟨q, hq, rfl⟩ := List.mem_map.1 hp
  obtain ⟨⟨source, hsource⟩, hvalid⟩ := h q hq
  refine ⟨⟨source.withoutHandlers, ?_⟩, hvalid⟩
  rw [resolve_map Peripheral.keepsIdentity_withoutHandlers rfl, hsource]
  rfl

end Device

namespace Header

theorem ofPeripheral_withoutHandlers (s : Settings) (p : Peripheral) (defined : DefinedMacros) :
    FieldMacro.ofPeripheral s p.withoutHandlers defined = FieldMacro.ofPeripheral s p defined := by
  have hkeeps : FieldMacro.KeepsBits id id :=
    ⟨fun _ => rfl, fun _ => rfl, fun _ => rfl, fun _ => rfl, fun _ => rfl, fun _ => rfl,
      fun _ => rfl⟩
  have hfields (r : Register) :
      p.withoutHandlers.fieldsOf (id r) = (p.fieldsOf r).map (List.map id) := by
    rw [List.map_id_fun]
    show p.fieldsOf r = _
    cases p.fieldsOf r <;> rfl
  have hregisters := FieldMacro.ofRegisters_map hkeeps (p := p) (q := p.withoutHandlers) rfl s
    hfields defined
  simp only [List.map_id] at hregisters
  unfold FieldMacro.ofPeripheral
  rw [show p.withoutHandlers.registers = p.registers from rfl, hregisters]
  rfl

/-- A device has the same header without the handlers of its core exceptions. -/
theorem render_withoutHandlers {d : Device} (h : d.HasCoreHandlers) (s : Settings) :
    render s d.withoutHandlers = render s d := by
  have hkeeps := Peripheral.keepsIdentity_withoutHandlers
  have hfront : front d.withoutHandlers = front d := by
    cases hvectors : d.vectorTable with
    | none => simp only [front, preamble, Device.withoutHandlers, hvectors, Option.map_none]
    | some t =>
      simp only [front, preamble, Device.withoutHandlers, hvectors, Option.map_some,
        Option.getD_some, Vectors.enumeration_withoutHandlers,
        Vectors.prototypes_withoutHandlers (h t hvectors)]
  have hparts : Agree Eq (parts s d.withoutHandlers) (parts s d) := by
    refine parts_agree (R := Eq) (fun ha hb => by rw [ha, hb]) hkeeps rfl rfl rfl hfront
      (fun p _ w => ?_) fun _ _ => rfl
    refine peripheral_agree (fun ha hb => by rw [ha, hb]) hkeeps rfl rfl w rfl
      (fun source name group _ _ _ => .of_ensures fun _ _ => rfl) (fun source defined _ => ?_)
      fun _ _ => rfl
    rw [ofPeripheral_withoutHandlers]
    exact .of_ensures fun _ _ => ⟨rfl, rfl⟩
  rw [render, hparts.eq, render]

end Header

/-! ## Reading again -/

namespace Device

/-- **Written and read.** A valid device that was written as JSON is read again, without the
handlers of its interrupts. If these were the handlers of the core exceptions, its header is the
same under all settings. `Json.read?` reads data however deep it is nested; a reader that stops at
some depth gives the same for every device whose clusters do not go below it. -/
theorem load_describe_json {d : Device} {s : Settings} (hs : s.sourceFormat = .json)
    (hfits : d.Fits) (hintact : d.IsIntact) (hvalid : d.validate = .ok ()) :
    load s (describe .json d) = .pure d.withoutHandlers ∧
      (d.HasCoreHandlers → ∀ t : Settings,
        Header.render t d.withoutHandlers = Header.render t d) := by
  refine ⟨?_, fun h t => Header.render_withoutHandlers h t⟩
  have hread : Json.read? (describe .json d) = some (d.toDatum .json) :=
    Json.read?_print Json.isSpaced_paged (isPlain_toDatum hfits)
  have hdata : read s.sourceFormat s.commonNames (describe .json d) = .pure d.withoutHandlers := by
    simp only [hs, read, ofData, hread, Option.bind_some, ofDatum?_toDatum hfits hintact]
  rw [load, hdata]
  show Outcome.check _ (within _ d.withoutHandlers.validate) = _
  rw [validate_withoutHandlers hvalid]
  rfl

section Example

/-- A device with a tree of clusters, a derived peripheral, interrupts and core exceptions. -/
private def sampler : Device where
  name := "SMP1"
  description := "Line \"one\"\n\\ line two"
  equivalentDevices := ["SMP2"]
  cpu := some { name := "CM0PLUS", nvicPrioBits := 2 }
  peripherals := [
    { name := "ADC0", baseAddress := 0x40000000, groupName := some "ADC"
      interrupts := [{ index := 3, name := "ADC0", handler := some "Sample" }]
      addressBlocks := [{ offset := 0, size := 0x20, width := 32 }]
      registers := [
        .register {
          name := "CFG", offset := 0, width := 32, access := .readWrite
          resetValue := 1, resetMask := 0xff
          fields := [
            { name := "MODE", bitWidth := 2, access := some .readOnly
              enumerations := [{ name := "Off", mask := 3, text := some "0" }, {}] },
            { name := "LAST", bitOffset := 2, bitWidth := 2, derivedFrom := some "MODE" }] },
        .cluster { name := "CH,@p@a@i_@f", offset := 0x10, dim := some (.counted 8 2) } [
          .register {
            name := "DATA", offset := 0, width := 16, access := .readOnly
            resetValue := 0, resetMask := 0, derivedFrom := some "CFG" }]] },
    { name := "ADC1", baseAddress := 0x40001000, derivedFrom := some "ADC0" }]
  vectorTable := some ⟨[
    (-14, { index := -14, name := "NonMaskableInt", handler := some "NMI_Handler" }),
    (-1, { index := -1, name := "SysTick", handler := some "SysTick_Handler" }),
    (3, { index := 3, name := "ADC0", peripherals := ["ADC0"] })], by decide⟩

theorem load_describe_sampler :
    sampler.Fits ∧ sampler.IsIntact ∧ sampler.validate = .ok () ∧ sampler.HasCoreHandlers ∧
      sampler.withoutHandlers ≠ sampler ∧
      load { sourceFormat := .json } (describe .json sampler) = .pure sampler.withoutHandlers ∧
      ∀ t : Settings, Header.render t sampler.withoutHandlers = Header.render t sampler := by
  have hfits : sampler.Fits := by decide +kernel
  have hintact : sampler.IsIntact := by decide +kernel
  have hvalid : sampler.validate = .ok () := by decide +kernel
  have hcore : sampler.HasCoreHandlers := by decide +kernel
  obtain ⟨hload, hrender⟩ :=
    load_describe_json (s := { sourceFormat := .json }) rfl hfits hintact hvalid
  exact ⟨hfits, hintact, hvalid, hcore, by decide +kernel, hload, hrender hcore⟩

end Example

end Device

end RegisterMap
