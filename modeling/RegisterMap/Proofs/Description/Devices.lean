import RegisterMap.Description.Devices
import RegisterMap.Proofs.Description.Registers
import RegisterMap.Proofs.Vectors

/-!
# Devices that were written as data

A device whose numbers fit their types is read from its data as it was, without the handlers of
interrupts, which are not written (`Device.ofDatum?_toDatum`).
-/

namespace RegisterMap

open Fields

variable {dl : Dialect}

namespace AddressBlock

/-- The numbers fit their types. -/
@[mk_iff]
structure Fits (b : AddressBlock) : Prop where
  offset : b.offset < Bits.limit 64
  size : b.size < Bits.limit 64
  width : b.width < Bits.limit 32

instance : DecidablePred Fits := fun b => decidable_of_iff' _ (fits_iff b)

theorem ofDatum?_toDatum {b : AddressBlock} (h : b.Fits) : ofDatum? dl b.toDatum = some b := by
  rw [ofDatum?, toDatum, dl.fields?_ofFields ?within (by decide)]
  case within => exact within_all _
  simp [Datum.natural?_integer h.offset, Datum.natural?_integer h.size,
    Datum.natural?_integer h.width]

theorem isPlain_toDatum {b : AddressBlock} (h : b.Fits) : Json.IsPlain b.toDatum := by
  refine Json.isPlain_ofFields names (by cbv) (within_all _) ?_
  simp [Json.isPlain_natural h.offset, Json.isPlain_natural h.size, Json.isPlain_natural32 h.width]

end AddressBlock

/-! ## Interrupts -/

/-- The number fits the type of an index. -/
def Interrupt.IsIndex (n : Int) : Prop :=
  -(Bits.limit 31 : Int) ≤ n ∧ n < (Bits.limit 31 : Int)

instance : DecidablePred Interrupt.IsIndex := fun _ => inferInstanceAs (Decidable (_ ∧ _))

namespace Interrupt

variable {n : Int} {i : Interrupt}

theorem IsIndex.isWord (h : IsIndex n) : Json.isWord n = true := by
  have hlimits : Bits.limit 31 ≤ Bits.limit 63 ∧ Bits.limit 31 ≤ Bits.limit 64 := by decide
  obtain ⟨hlow, hhigh⟩ := h
  simp only [Json.isWord, Bool.and_eq_true, decide_eq_true_eq]
  omega

theorem IsIndex.signed? (h : IsIndex n) : Datum.signed? 32 (.integer n) = some n :=
  Datum.signed?_integer h.1 h.2

/-- The interrupt with a handler of the usual name. -/
def withoutHandler (i : Interrupt) : Interrupt := { i with handler := none }

theorem ofDatum?_toDatum (h : IsIndex i.index) :
    ofDatum? dl i.toDatum = some i.withoutHandler := by
  rw [ofDatum?, toDatum, dl.fields?_ofFields ?within (by decide)]
  case within => exact (within_all [_, _, _]).append (within_presentList _ _)
  have hperipherals : (Datum.listUnlessEmpty (i.peripherals.map .text)).elim (some [])
      (Datum.listOf? Datum.text?) = some i.peripherals :=
    Datum.elim_listUnlessEmpty _ _ fun _ _ => rfl
  simp [h.signed?, hperipherals, withoutHandler]

theorem isPlain_toDatum (h : IsIndex i.index) : Json.IsPlain i.toDatum := by
  refine Json.isPlain_ofFields names (by cbv)
    ((within_all [_, _, _]).append (within_presentList _ _)) ?_
  simp [Json.IsPlain.integer h.isWord]

end Interrupt

namespace VectorTable

/-- The keys and the numbers of the entries fit their type. -/
def Fits (t : VectorTable) : Prop :=
  ∀ e ∈ t.entries, Interrupt.IsIndex e.1 ∧ Interrupt.IsIndex e.2.index

instance : DecidablePred Fits := fun t => inferInstanceAs (Decidable (∀ e ∈ t.entries, _))

/-- The table with handlers of the usual names. -/
def withoutHandlers (t : VectorTable) : VectorTable where
  entries := t.entries.map fun (k, i) => (k, i.withoutHandler)
  sorted := List.pairwise_map.2 t.sorted

theorem ext_entries {t u : VectorTable} (h : t.entries = u.entries) : t = u := by
  cases t
  cases u
  cases h
  rfl

theorem key?_key {k : Int} (h : Interrupt.IsIndex k) :
    Dialect.json.key? (Dialect.json.key k) = some k := by
  show (Json.integerText? (toString k)).bind _ = _
  rw [Json.integerText?_toString h.isWord, Option.bind_some]
  exact h.signed?

/-- Entries in the order of their keys are read behind those of a table. -/
theorem foldlM_entries {t u : VectorTable} {es : List (Int × Interrupt)}
    (hfits : ∀ e ∈ es, Interrupt.IsIndex e.1 ∧ Interrupt.IsIndex e.2.index)
    (hentries : u.entries = t.entries ++ es.map fun (k, i) => (k, i.withoutHandler)) :
    (es.map fun (k, i) => (Dialect.json.key k, i.toDatum)).foldlM
      (fun (t : VectorTable) (k, v) => do
        return t.insert (← Dialect.json.key? k) (← Interrupt.ofDatum? .json v)) t = some u := by
  induction es generalizing t with
  | nil =>
    rw [List.map_nil, List.append_nil] at hentries
    exact congrArg some (ext_entries hentries.symm)
  | cons e es ih =>
    obtain ⟨k, i⟩ := e
    obtain ⟨⟨hk, hi⟩, hes⟩ := List.forall_mem_cons.1 hfits
    have hlast : ∀ e ∈ t.entries, e.1 < k := by
      have hsorted := u.sorted
      rw [hentries, List.pairwise_append] at hsorted
      exact fun e he => hsorted.2.2 e he _ List.mem_cons_self
    rw [List.map_cons, List.foldlM_cons]
    simp only [key?_key hk, Interrupt.ofDatum?_toDatum hi]
    refine ih hes ?_
    show u.entries = Vectors.put k i.withoutHandler t.entries ++ _
    rw [Vectors.put_eq_append hlast, hentries]
    simp

theorem ofDatum?_toDatum {t : VectorTable} (h : t.Fits) :
    ofDatum? .json (t.toDatum .json) = some t.withoutHandlers := by
  rw [ofDatum?, toDatum, Dialect.json.fields?_ofFields ?within (by decide)]
  case within => exact within_all _
  have hread : readEntries .json (.record (t.entries.map fun (k, i) =>
      (Dialect.json.key k, i.toDatum))) = some t.withoutHandlers :=
    foldlM_entries h rfl
  simp [hread]

theorem isPlain_toDatum {t : VectorTable} (h : t.Fits) : Json.IsPlain (t.toDatum .json) := by
  refine Json.isPlain_ofFields names (by cbv) (within_all _) ?_
  rw [Json.arePlain_cons]
  refine ⟨.record (fun e he => ?_) fun e he => ?_, Json.arePlain_nil⟩
  · obtain ⟨f, -, rfl⟩ := List.mem_map.1 he
    exact ⟨_, rfl, Json.isVerbatim_toString f.1⟩
  · obtain ⟨f, hf, rfl⟩ := List.mem_map.1 he
    exact Interrupt.isPlain_toDatum (h f hf).2

end VectorTable

/-! ## Peripherals -/

namespace Peripheral

/-- The numbers fit their types. -/
@[mk_iff]
structure Fits (p : Peripheral) : Prop where
  baseAddress : p.baseAddress < Bits.limit 64
  width : p.width < Bits.limit 32
  resetValue : p.resetValue < Bits.limit 64
  resetMask : p.resetMask < Bits.limit 64
  preferredAccessWidth : p.preferredAccessWidth < Bits.limit 32
  forcedBlockMultiple : p.forcedBlockMultiple < Bits.limit 32
  registers : Element.fitsAll p.registers = true
  addressBlocks : ∀ b ∈ p.addressBlocks, b.Fits
  interrupts : ∀ i ∈ p.interrupts, Interrupt.IsIndex i.index

instance : DecidablePred Fits := fun p => decidable_of_iff' _ (fits_iff p)

/-- The peripheral whose interrupts have handlers of the usual names. -/
def withoutHandlers (p : Peripheral) : Peripheral :=
  { p with interrupts := p.interrupts.map Interrupt.withoutHandler }

theorem ofDatum?_toDatum {p : Peripheral} (h : p.Fits)
    (hintact : Element.isIntactAll p.registers = true) :
    ofDatum? .json (p.toDatum .json) = some p.withoutHandlers := by
  rw [ofDatum?, toDatum, Dialect.json.fields?_ofFields ?within (by decide)]
  case within =>
    exact (((((((within_all [_, _]).append (within_present _ _)).append (within_present _ _)).append
      (within_present _ _)).append (within_present _ _)).append
      (within_all [_, _, _, _, _])).append (within_present _ _)).append
      (within_all [_, _, _, _, _])
  have hregisters := Element.listOf?_toData h.registers hintact
  have hblocks := Datum.listOf?_list (AddressBlock.ofDatum? .json) AddressBlock.toDatum
    fun b hb => AddressBlock.ofDatum?_toDatum (h.addressBlocks b hb)
  have hinterrupts := Datum.listOf?_map (Interrupt.ofDatum? .json) Interrupt.toDatum
    Interrupt.withoutHandler fun i hi => Interrupt.ofDatum?_toDatum (h.interrupts i hi)
  generalize hfs : (_ ++ _ : Fields) = fs
  -- the readings are nested, so each is settled by itself
  have htexts :
      fs.required "name" Datum.text? = some p.name ∧
      fs.required "description" Datum.text? = some p.description ∧
      fs.optional "group_name" Datum.text? = some p.groupName ∧
      fs.optional "prepend_to_name" Datum.text? = some p.prependToName ∧
      fs.optional "append_to_name" Datum.text? = some p.appendToName ∧
      fs.optional "header_struct_name" Datum.text? = some p.headerStructName ∧
      fs.optional "derived_from" Datum.text? = some p.derivedFrom := by
    subst hfs
    simp [List.lookup_append]
  have hnumbers :
      fs.required "base_address" (Datum.natural? 64) = some p.baseAddress ∧
      fs.required "width" (Datum.natural? 32) = some p.width ∧
      fs.required "access" (Access.ofDatum? .json) = some p.access ∧
      fs.required "reset_value" (Datum.natural? 64) = some p.resetValue ∧
      fs.required "reset_mask" (Datum.natural? 64) = some p.resetMask ∧
      fs.withDefault "preferred_access_width" 0 (Datum.natural? 32) =
        some p.preferredAccessWidth ∧
      fs.withDefault "forced_block_multiple" 0 (Datum.natural? 32) =
        some p.forcedBlockMultiple := by
    subst hfs
    simp [List.lookup_append, Access.ofDatum?_toDatum, Datum.natural?_integer h.baseAddress,
      Datum.natural?_integer h.width, Datum.natural?_integer h.resetValue,
      Datum.natural?_integer h.resetMask, Datum.natural?_integer h.preferredAccessWidth,
      Datum.natural?_integer h.forcedBlockMultiple]
  have hlists :
      fs.withDefault "registers" [] (Datum.listOf? (Element.ofDatum? .json)) = some p.registers ∧
      fs.withDefault "address_blocks" [] (Datum.listOf? (AddressBlock.ofDatum? .json)) =
        some p.addressBlocks ∧
      fs.withDefault "interrupts" [] (Datum.listOf? (Interrupt.ofDatum? .json)) =
        some (p.interrupts.map Interrupt.withoutHandler) := by
    subst hfs
    simp [List.lookup_append, hregisters, hblocks, hinterrupts]
  obtain ⟨hname, hdescription, hgroup, hprepend, happend, hstruct, hderived⟩ := htexts
  obtain ⟨hbase, hwidth, haccess, hvalue, hmask, hpreferred, hforced⟩ := hnumbers
  obtain ⟨hregisters, hblocks, hinterrupts⟩ := hlists
  rw [Option.bind_eq_bind, Option.bind_some, hname, hdescription, hgroup, hprepend, happend,
    hstruct, hbase, hwidth, haccess, hvalue, hmask, hderived, hpreferred, hforced, hregisters,
    hblocks, hinterrupts]
  rfl

theorem isPlain_toDatum {p : Peripheral} (h : p.Fits) : Json.IsPlain (p.toDatum .json) := by
  refine Json.isPlain_ofFields names (by cbv)
    ((((((((within_all [_, _]).append (within_present _ _)).append (within_present _ _)).append
      (within_present _ _)).append (within_present _ _)).append
      (within_all [_, _, _, _, _])).append (within_present _ _)).append
      (within_all [_, _, _, _, _])) ?_
  have hregisters := fun e he => Element.isPlain_toDatum e (Element.fitsAll_iff.1 h.registers e he)
  have hblocks := fun b hb => AddressBlock.isPlain_toDatum (h.addressBlocks b hb)
  have hinterrupts := fun i hi => Interrupt.isPlain_toDatum (h.interrupts i hi)
  simpa [Json.isPlain_natural h.baseAddress, Json.isPlain_natural32 h.width,
    Json.isPlain_natural h.resetValue, Json.isPlain_natural h.resetMask,
    Json.isPlain_natural32 h.preferredAccessWidth, Json.isPlain_natural32 h.forcedBlockMultiple,
    Element.toData_eq_map] using ⟨hregisters, hblocks, hinterrupts⟩

end Peripheral

/-! ## Devices -/

namespace Cpu

theorem ofDatum?_toDatum {c : Cpu} (h : c.nvicPrioBits < Bits.limit 32) :
    ofDatum? dl c.toDatum = some c := by
  rw [ofDatum?, toDatum, dl.fields?_ofFields ?within (by decide)]
  case within => exact within_all _
  simp [Datum.natural?_integer h]

theorem isPlain_toDatum {c : Cpu} (h : c.nvicPrioBits < Bits.limit 32) :
    Json.IsPlain c.toDatum := by
  refine Json.isPlain_ofFields names (by cbv) (within_all _) ?_
  simp [Json.isPlain_natural32 h]

end Cpu

namespace Device

/-- The numbers fit their types. -/
@[mk_iff]
structure Fits (d : Device) : Prop where
  addressUnitBits : d.addressUnitBits < Bits.limit 32
  width : d.width < Bits.limit 32
  resetValue : d.resetValue < Bits.limit 64
  resetMask : d.resetMask < Bits.limit 64
  cpu : ∀ c ∈ d.cpu, c.nvicPrioBits < Bits.limit 32
  peripherals : ∀ p ∈ d.peripherals, p.Fits
  vectorTable : ∀ t ∈ d.vectorTable, t.Fits

instance : DecidablePred Fits := fun d => decidable_of_iff' _ (fits_iff d)

/-- Nothing in the device waits to be taken out. -/
def IsIntact (d : Device) : Prop :=
  ∀ p ∈ d.peripherals, Element.isIntactAll p.registers = true

instance : DecidablePred IsIntact := fun _ => inferInstanceAs (Decidable (∀ _ ∈ _, _))

/-- The device whose interrupts and vectors have handlers of the usual names. -/
def withoutHandlers (d : Device) : Device :=
  { d with
    peripherals := d.peripherals.map Peripheral.withoutHandlers
    vectorTable := d.vectorTable.map VectorTable.withoutHandlers }

/-- **Data.** A device is read from its data as it was, without its handlers. -/
theorem ofDatum?_toDatum {d : Device} (h : d.Fits) (hintact : d.IsIntact) :
    ofDatum? .json (d.toDatum .json) = some d.withoutHandlers := by
  rw [ofDatum?, toDatum, Dialect.json.fields?_ofFields ?within (by decide)]
  case within =>
    exact (((((within_all [_, _, _]).append (within_presentList _ _)).append
      (within_all [_, _, _, _, _])).append (within_present _ _)).append (within_all [_])).append
      (within_present _ _)
  have hdevices : (Datum.listUnlessEmpty (d.equivalentDevices.map .text)).elim (some [])
      (Datum.listOf? Datum.text?) = some d.equivalentDevices :=
    Datum.elim_listUnlessEmpty _ _ fun _ _ => rfl
  have hcpu := Datum.elim_unlessAbsent? (Cpu.ofDatum? .json) Cpu.toDatum (fun _ => rfl)
    fun c hc => Cpu.ofDatum?_toDatum (h.cpu c hc)
  have hperipherals := Datum.listOf?_map (Peripheral.ofDatum? .json) (Peripheral.toDatum .json)
    Peripheral.withoutHandlers
    fun p hp => Peripheral.ofDatum?_toDatum (h.peripherals p hp) (hintact p hp)
  have hvectors := Datum.elim_map (VectorTable.ofDatum? .json) (VectorTable.toDatum .json)
    VectorTable.withoutHandlers (fun _ => rfl)
    fun t ht => VectorTable.ofDatum?_toDatum (h.vectorTable t ht)
  generalize hfs : (_ ++ _ : Fields) = fs
  have htexts :
      fs.required "name" Datum.text? = some d.name ∧
      fs.withDefault "version" "" Datum.text? = some d.version ∧
      fs.withDefault "description" "" Datum.text? = some d.description ∧
      fs.withDefault "equivalent_devices" [] (Datum.listOf? Datum.text?) =
        some d.equivalentDevices := by
    subst hfs
    simp [List.lookup_append, hdevices]
  have hnumbers :
      fs.required "address_unit_bits" (Datum.natural? 32) = some d.addressUnitBits ∧
      fs.required "width" (Datum.natural? 32) = some d.width ∧
      fs.required "access" (Access.ofDatum? .json) = some d.access ∧
      fs.required "reset_value" (Datum.natural? 64) = some d.resetValue ∧
      fs.required "reset_mask" (Datum.natural? 64) = some d.resetMask := by
    subst hfs
    simp [List.lookup_append, Access.ofDatum?_toDatum, Datum.natural?_integer h.addressUnitBits,
      Datum.natural?_integer h.width, Datum.natural?_integer h.resetValue,
      Datum.natural?_integer h.resetMask]
  have hparts :
      fs.optional "cpu" (Cpu.ofDatum? .json) = some d.cpu ∧
      fs.required "peripherals" (Datum.listOf? (Peripheral.ofDatum? .json)) =
        some (d.peripherals.map Peripheral.withoutHandlers) ∧
      fs.optional "vector_table" (VectorTable.ofDatum? .json) =
        some (d.vectorTable.map VectorTable.withoutHandlers) := by
    subst hfs
    simp [List.lookup_append, hcpu, hperipherals, hvectors]
  obtain ⟨hname, hversion, hdescription, hdevices⟩ := htexts
  obtain ⟨hunit, hwidth, haccess, hvalue, hmask⟩ := hnumbers
  obtain ⟨hcpu, hperipherals, hvectors⟩ := hparts
  rw [Option.bind_eq_bind, Option.bind_some, hname, hversion, hdescription, hdevices, hunit,
    hwidth, haccess, hvalue, hmask, hcpu, hperipherals, hvectors]
  rfl

theorem isPlain_toDatum {d : Device} (h : d.Fits) : Json.IsPlain (d.toDatum .json) := by
  refine Json.isPlain_ofFields names (by cbv)
    ((((((within_all [_, _, _]).append (within_presentList _ _)).append
      (within_all [_, _, _, _, _])).append (within_present _ _)).append (within_all [_])).append
      (within_present _ _)) ?_
  have hcpu := fun c hc => Cpu.isPlain_toDatum (h.cpu c hc)
  have hperipherals := fun p hp => Peripheral.isPlain_toDatum (h.peripherals p hp)
  have hvectors := fun t ht => VectorTable.isPlain_toDatum (h.vectorTable t ht)
  simpa [Json.isPlain_natural32 h.addressUnitBits, Json.isPlain_natural32 h.width,
    Json.isPlain_natural h.resetValue, Json.isPlain_natural h.resetMask]
    using ⟨hcpu, hperipherals, hvectors⟩

end Device

end RegisterMap
