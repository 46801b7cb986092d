import RegisterMap.Generation
import RegisterMap.Proofs.Clusters.Members
import RegisterMap.Proofs.Reduced
import RegisterMap.Proofs.Sources
import RegisterMap.Proofs.Stages
import RegisterMap.Proofs.Svd.Device
import RegisterMap.Proofs.Svd.Values

/-!
# Devices that documents give

Reductions keep values tidy as they were read (`Workpiece.ensures_reduce`,
`Device.isTidy_of_reduce`). Of the device that a document gives it is left to ask that its texts
have the characters that documents can have, and that the names and places which reductions make up
and the numbers of vectors can be written (`Device.IsLegible`). The device can then be read again
(`Device.isSpelled_of_prepare`).
-/

namespace RegisterMap

open Svd Xml Text

/-! ## Registers that passes change -/

theorem Register.IsTidy.extractSimilarFields {r : Register} (h : r.IsTidy) :
    r.extractSimilarFields.IsTidy := by
  have hshared (g : Field) (hg : g ∈ r.extractSimilarFields.fields) :
      g.IsTidy ∧ g.name ≠ "RESERVED" := by
    obtain ⟨earlier, f, hf, rfl⟩ := exists_of_mem_shareEnumerations hg
    have hf : f ∈ r.fields := List.mem_mergeSort.1 hf
    have htidy := h.fields f hf
    have hname := h.notReserved f hf
    unfold shareOne
    split
    · exact ⟨htidy, hname⟩
    · split
      · exact ⟨htidy.share _, hname⟩
      · exact ⟨htidy, hname⟩
  exact ⟨h.defaults, fun g hg => (hshared g hg).1, fun g hg => (hshared g hg).2⟩

namespace Element

theorem AreTidy.mapRegistersAll {es : List Element} (h : AreTidy es) {f : Register → Register}
    (hf : ∀ r : Register, r.IsTidy → (f r).IsTidy) : AreTidy (mapRegistersAll f es) := by
  intro s hs
  rw [registersAll_mapRegistersAll] at hs
  obtain ⟨r, hr, rfl⟩ := List.mem_map.1 hs
  exact hf r (h r hr)

theorem AreTidy.foldElements {es : List Element} (h : AreTidy es) (cmp : Comparison) :
    AreTidy (Peripheral.foldElements cmp [] es) := by
  intro r hr
  obtain ⟨f, hf, hr⟩ := mem_registersAll_iff.1 hr
  obtain ⟨e, he, hef⟩ := exists_mem_of_forall₂ (Peripheral.foldedFrom_foldElements cmp [] es) hf
  cases hef with
  | same => exact h r (mem_registersAll_iff.2 ⟨f, he, hr⟩)
  | derived s source =>
    cases List.mem_singleton.1 hr
    exact {
      defaults := (h s (mem_registersAll_of_mem he)).defaults
      fields := fun _ hf => absurd hf List.not_mem_nil
      notReserved := fun _ hf => absurd hf List.not_mem_nil }

end Element

/-! ## Passes over peripherals -/

namespace Peripheral

variable {common : Bool} {p : Peripheral} {s : Settings}

theorem IsTidy.sort (h : p.IsTidy common) : p.sort.IsTidy common :=
  { h with registers := h.registers.descends (Element.descends_sortAll p.registers) }

theorem IsTidy.foldArrays (h : p.IsTidy common) (cmp : Comparison) :
    Ensures (p.foldArrays cmp).toExcept (IsTidy common) := by
  refine .of_state ?_
  rw [foldArrays_state]
  exact { h with registers := h.registers.descends (p.descends_foldArrays cmp) }

theorem IsTidy.groupClusters (h : p.IsTidy common) :
    Ensures p.groupClusters.toExcept (IsTidy common) := by
  refine .of_state ?_
  rw [groupClusters_state]
  exact { h with registers := h.registers.descends p.reached_groupClusters.2.descends }

theorem IsTidy.createAddressBlocks (h : p.IsTidy common) :
    Ensures p.createAddressBlocks.toExcept (IsTidy common) := by
  unfold Peripheral.createAddressBlocks
  split
  · exact .ok h
  · rw [Outcome.toExcept_ofExcept]
    cases blocksOf p.sort with
    | error f => exact fun _ hq => nomatch hq
    | ok bs => exact .ok { h.sort with }

theorem IsTidy.foldRegisters (h : p.IsTidy common) (cmp : Comparison) :
    (p.foldRegisters cmp).IsTidy common :=
  { h with registers := h.registers.foldElements cmp }

theorem IsTidy.shareEnumerations (h : p.IsTidy common) : p.shareEnumerations.IsTidy common :=
  { h with
    registers := h.registers.mapRegistersAll fun _ hr => hr.extractSimilarFields }

theorem IsTidy.deriveFrom (h : p.IsTidy common) (source : String) :
    (p.deriveFrom source).IsTidy common :=
  { h with registers := Element.areTidy_nil }

end Peripheral

namespace Workpiece

variable {common : Bool} {w : Workpiece}

theorem ensures_step {f : Peripheral → Outcome Peripheral}
    (h : Ensures (f w.peripheral).toExcept fun q => q.IsTidy common) :
    Ensures (w.step f).toExcept fun w' => w'.peripheral.IsTidy common :=
  fun _ hw => h _ (step_ok hw)

theorem ensures_stepIf {asked : Bool} {f : Workpiece → Outcome Workpiece}
    (h : w.peripheral.IsTidy common)
    (hf : Ensures (f w).toExcept fun w' => w'.peripheral.IsTidy common) :
    Ensures (stepIf asked f w).toExcept fun w' => w'.peripheral.IsTidy common := by
  intro w' hw'
  rcases stepIf_ok hw' with ⟨-, hw'⟩ | ⟨-, rfl⟩
  · exact hf w' hw'
  · exact h

theorem ensures_extractPrefix (h : w.peripheral.IsTidy common) :
    Ensures (extractPrefix w).toExcept fun w' => w'.peripheral.IsTidy common := by
  have htaken (part : List Char) : (w.peripheral.takePrefix part).IsTidy common :=
    { h with
      registers := h.registers.descends
        (Element.descends_map (fun e => Element.descends_withName e _) w.peripheral.registers) }
  unfold extractPrefix
  dsimp only
  split
  · exact .ok h
  · split
    · exact .ok (htaken _)
    · refine .of_state { htaken _ with description := ?_ }
      dsimp only
      split
      · exact h.name
      · exact h.description

theorem ensures_andThen {o : Outcome Workpiece} {f : Workpiece → Outcome Workpiece}
    (h : Ensures o.toExcept fun w => w.peripheral.IsTidy common)
    (hf : ∀ w : Workpiece, w.peripheral.IsTidy common →
      Ensures (f w).toExcept fun w' => w'.peripheral.IsTidy common) :
    Ensures (o.andThen f).toExcept fun w => w.peripheral.IsTidy common := by
  rw [Outcome.toExcept_andThen]
  exact h.bind hf

/-- The passes keep a peripheral tidy. -/
theorem ensures_reduce (h : w.peripheral.IsTidy common) (s : Settings) :
    Ensures (reduce s w).toExcept fun w' => w'.peripheral.IsTidy common := by
  unfold reduce
  split
  · exact .ok h
  · refine ensures_andThen ?_ fun w h => ensures_step (.ok h.sort)
    refine ensures_andThen ?_ fun w h => ensures_stepIf h (ensures_step (.ok h.shareEnumerations))
    refine ensures_andThen ?_ fun w h =>
      ensures_stepIf h (ensures_step (.ok (h.foldRegisters s.comparison)))
    refine ensures_andThen ?_ fun w h => ensures_stepIf h (ensures_extractPrefix h)
    refine ensures_andThen ?_ fun w h => ensures_stepIf h (ensures_step h.createAddressBlocks)
    refine ensures_andThen ?_ fun w h => ensures_stepIf h (ensures_step h.groupClusters)
    exact ensures_stepIf h.sort (ensures_step (h.sort.foldArrays s.comparison))

end Workpiece

/-! ## Devices that are reduced -/

theorem Peripheral.name_of_reduce {p : Peripheral} {s : Settings} {conflicts : List String}
    {w : Workpiece} (h : (Workpiece.reduce s ⟨p, conflicts⟩).toExcept = .ok w) :
    w.peripheral.name = p.name := by
  cases hown : p.isDerived with
  | true =>
    rw [reduce_of_isDerived hown] at h
    cases h
    rfl
  | false => exact (isReduced_of_reduce hown h).2.name_eq

namespace Device

variable {common : Bool} {d e : Device} {s : Settings}

theorem IsTidy.deriveIf (h : d.IsTidy common) (s : Settings) : (d.deriveIf s).IsTidy common := by
  rcases deriveIf_cases s d with hd | hd
  · rw [hd]
    exact h
  · rw [hd]
    refine { h with peripherals := fun q hq => ?_ }
    obtain ⟨p, hp, hpq⟩ := exists_mem_of_forall₂ (d.derivePeripherals_derivedIn s.comparison) hq
    have hp := h.peripherals p hp
    cases hpq with
    | kept => exact hp
    | derived => exact hp.deriveFrom _

theorem map_name_deriveIf (s : Settings) (d : Device) :
    (d.deriveIf s).peripherals.map Peripheral.name = d.peripherals.map Peripheral.name := by
  rcases deriveIf_cases s d with hd | hd
  · rw [hd]
  · rw [hd]
    exact map_name_of_derivedIn (d.derivePeripherals_derivedIn s.comparison)

theorem IsTidy.hasTidyTexts_unownedVectors (h : d.IsTidy common) :
    ∀ i ∈ d.unownedVectors, i.HasTidyTexts := by
  intro i hi
  unfold unownedVectors at hi
  cases ht : d.vectorTable with
  | none =>
    rw [ht] at hi
    exact absurd hi List.not_mem_nil
  | some t =>
    rw [ht] at hi
    obtain ⟨e, he, rfl⟩ := List.mem_map.1 (List.mem_filter.1 hi).1
    exact h.vectors t ht e he

theorem IsTidy.hasTidyTexts_interruptsOf (h : d.IsTidy common) :
    ∀ i ∈ VectorTable.interruptsOf d.peripherals, i.HasTidyTexts := by
  intro i hi
  obtain ⟨p, hp, hi⟩ := List.mem_flatMap.1 hi
  obtain ⟨j, hj, rfl⟩ := List.mem_map.1 hi
  exact ((h.peripherals p hp).interrupts j hj).toHasTidyTexts.ownedBy p.name

theorem hasTidyTexts_coreEntries (small : Bool) :
    ∀ i ∈ VectorTable.coreEntries small, i.HasTidyTexts := by
  have hall : ∀ e ∈ CoreException.all, e.name ≠ "" ∧ IsTrimmed e.name.toList ∧
      IsTrimmed e.description.toList := by decide +kernel
  intro i hi
  obtain ⟨e, he, rfl⟩ := List.mem_map.1 hi
  obtain ⟨hnamed, hname, hdescription⟩ := hall e (List.mem_filter.1 he).1
  exact ⟨hnamed, hname, hdescription⟩

/-- Collecting vectors keeps the device tidy. -/
theorem IsTidy.collectVectors (h : d.IsTidy common) :
    Ensures d.collectVectors (IsTidy common) := by
  intro e he
  obtain ⟨t, ht, he⟩ := bind_eq_ok.1 he
  obtain ⟨u, hu, he⟩ := bind_eq_ok.1 he
  obtain ⟨v, hv, he⟩ := bind_eq_ok.1 he
  cases he
  have ht := VectorTable.hasTidyTexts_empty.addAll h.hasTidyTexts_unownedVectors ht
  have hu := ht.addAll h.hasTidyTexts_interruptsOf hu
  refine { h with vectors := ?_ }
  rintro _ ⟨⟩
  rcases withCoreExceptions_ok hv with rfl | ⟨-, small, hv⟩
  · exact hu
  · exact hu.addAll (hasTidyTexts_coreEntries small) hv

/-- A reduction keeps the device tidy. -/
theorem isTidy_of_reduce (hd : d.IsTidy common) (h : (d.reduce s).toExcept = .ok e) :
    e.IsTidy common := by
  obtain ⟨-, ps, hps, hcollected, -⟩ := reduce_ok_iff.1 h
  have hreduced : IsTidy common { d with peripherals := ps } := by
    refine { hd with peripherals := fun q hq => ?_ }
    obtain ⟨p, hp, conflicts, w, hw, rfl⟩ :=
      exists_mem_of_forall₂ (Peripheral.reduceAll_ok hps) hq
    exact Workpiece.ensures_reduce (hd.peripherals p hp) s w hw
  exact (hreduced.deriveIf s).collectVectors e hcollected

/-- A reduction keeps the names of the device and of its peripherals. -/
theorem names_of_reduce (h : (d.reduce s).toExcept = .ok e) :
    e.name = d.name ∧
      e.peripherals.map Peripheral.name = d.peripherals.map Peripheral.name := by
  obtain ⟨-, ps, hps, hcollected, -⟩ := reduce_ok_iff.1 h
  obtain ⟨t, rfl⟩ := collectVectors_ok hcollected
  refine ⟨by rw [deriveIf_eq], (map_name_deriveIf s _).trans ?_⟩
  refine map_eq_map_of_forall₂ ((Peripheral.reduceAll_ok hps).flip.imp fun q p hpq => ?_)
  obtain ⟨conflicts, w, hw, rfl⟩ := hpq
  exact Peripheral.name_of_reduce hw

end Device

/-! ## Legible parts -/

/-- The text has the characters that documents can have. -/
def Svd.IsWritable (s : String) : Prop := Node.isPlainText s.toList = true

instance : DecidablePred Svd.IsWritable := fun _ => inferInstanceAs (Decidable (_ = true))

namespace Enumeration

/-- The texts can be written, of which a default has none for its value. -/
@[mk_iff]
structure IsLegible (e : Enumeration) : Prop where
  name : IsWritable e.name
  description : IsWritable e.description
  text : e.isDefault = false → ∀ t ∈ e.text, IsWritable t

instance : DecidablePred IsLegible := fun e => decidable_of_iff' _ (isLegible_iff e)

theorem IsTidy.isSpelled {e : Enumeration} {width : Nat} (h : e.IsTidy width)
    (hlegible : e.IsLegible) : e.IsSpelled width where
  name := ⟨hlegible.name, h.name⟩
  description := ⟨hlegible.description, h.description⟩
  value := by
    cases hdefault : e.isDefault with
    | true => exact .inl rfl
    | false =>
      obtain ⟨t, ht, htrimmed, hvalue⟩ := h.value.resolve_left (by simp [hdefault])
      exact .inr ⟨t, ht, ⟨hlegible.text hdefault t ht, htrimmed⟩, hvalue⟩

end Enumeration

namespace Field

/-- The texts and the source can be written, and so can the enumerations, unless the field is
derived. -/
@[mk_iff]
structure IsLegible (f : Field) : Prop where
  name : IsWritable f.name
  description : IsWritable f.description
  derivedFrom : ∀ s ∈ f.derivedFrom, IsReference s
  enumerations : f.derivedFrom = none → ∀ e ∈ f.enumerations, e.IsLegible

instance : DecidablePred IsLegible := fun f => decidable_of_iff' _ (isLegible_iff f)

theorem IsTidy.isSpelled {f : Field} (h : f.IsTidy) (hname : f.name ≠ "RESERVED")
    (hlegible : f.IsLegible) : f.IsSpelled where
  name := ⟨hlegible.name, h.name⟩
  not_reserved := hname
  description := ⟨hlegible.description, h.description⟩
  bitOffset := h.bitOffset
  bitWidth := h.bitWidth
  derivedFrom := hlegible.derivedFrom
  enumerations hown e he := (h.enumerations e he).isSpelled (hlegible.enumerations hown e he)
  default_last _ := h.defaultLast

end Field

namespace Register

/-- The name, the place, the array and the source of the register can be written, and so can the
fields, unless the register is derived. -/
@[mk_iff]
structure IsLegible (r : Register) : Prop where
  intact : r.deleted = false
  named : r.name ≠ ""
  name : IsVerbatim r.name
  description : IsVerbatim r.description
  offset : r.offset < Bits.limit 64
  dim : ∀ d ∈ r.dim, d.IsSpelled
  derivedFrom : ∀ s ∈ r.derivedFrom, IsReference s
  fields : r.derivedFrom = none → ∀ f ∈ r.fields, f.IsLegible

instance : DecidablePred IsLegible := fun r => decidable_of_iff' _ (isLegible_iff r)

theorem IsTidy.isSpelled {r : Register} (h : r.IsTidy) (hlegible : r.IsLegible) : r.IsSpelled where
  intact := hlegible.intact
  named := hlegible.named
  name := hlegible.name
  description := hlegible.description
  offset := hlegible.offset
  defaults := h.defaults
  dim := hlegible.dim
  derivedFrom := hlegible.derivedFrom
  fields hown f hf := (h.fields f hf).isSpelled (h.notReserved f hf) (hlegible.fields hown f hf)

end Register

namespace Element

mutual

/-- The registers can be written, and so can the heads of clusters. -/
def isLegible : Element → Bool
  | register r => decide r.IsLegible
  | cluster c es => decide c.IsSpelled && areLegible es

/-- All elements can be written. -/
def areLegible : List Element → Bool
  | [] => true
  | e :: es => e.isLegible && areLegible es

end

mutual

theorem isSpelled_of_isLegible : (e : Element) → (∀ r ∈ e.registers, r.IsTidy) →
    e.isLegible = true → e.isSpelled = true
  | .register r, htidy, hlegible => by
    have hr := htidy r (List.mem_singleton_self r)
    exact decide_eq_true (hr.isSpelled (of_decide_eq_true hlegible))
  | .cluster c es, htidy, hlegible => by
    obtain ⟨hc, hes⟩ : c.IsSpelled ∧ areLegible es = true := by simpa [isLegible] using hlegible
    simpa [isSpelled, hc] using areSpelled_of_areLegible es htidy hes

/-- Tidy elements that are legible can be written and read. -/
theorem areSpelled_of_areLegible : (es : List Element) → AreTidy es → areLegible es = true →
    areSpelled es = true
  | [], _, _ => rfl
  | e :: es, htidy, hlegible => by
    obtain ⟨he, hes⟩ : e.isLegible = true ∧ areLegible es = true := by
      simpa [areLegible] using hlegible
    obtain ⟨hhead, htail⟩ := List.forall_mem_append.1 htidy
    simpa [areSpelled, isSpelled_of_isLegible e hhead he] using
      areSpelled_of_areLegible es htail hes

end

end Element

/-- The texts can be written. -/
@[mk_iff]
structure Interrupt.IsLegible (i : Interrupt) : Prop where
  name : IsWritable i.name
  description : IsWritable i.description

instance : DecidablePred Interrupt.IsLegible :=
  fun i => decidable_of_iff' _ (Interrupt.isLegible_iff i)

theorem Interrupt.IsTidy.isSpelled {i : Interrupt} (h : i.IsTidy) (hlegible : i.IsLegible) :
    i.IsSpelled where
  named := h.named
  name := ⟨hlegible.name, h.name⟩
  description := ⟨hlegible.description, h.description⟩
  low := h.low
  high := h.high

namespace Peripheral

/-- The texts and the source can be written, what is put before the register names is read as it
is, and so can the address blocks and registers be, unless the peripheral is derived. -/
@[mk_iff]
structure IsLegible (p : Peripheral) : Prop where
  name : IsWritable p.name
  description : IsWritable p.description
  groupName : ∀ t ∈ p.groupName, IsWritable t
  prependToName : ∀ t ∈ p.prependToName, IsVerbatim t
  appendToName : ∀ t ∈ p.appendToName, IsWritable t
  headerStructName : ∀ t ∈ p.headerStructName, IsWritable t
  interrupts : ∀ i ∈ p.interrupts, i.IsLegible
  derivedFrom : ∀ s ∈ p.derivedFrom, IsReference s
  addressBlocks : p.derivedFrom = none → ∀ b ∈ p.addressBlocks, b.IsSpelled
  registers : p.derivedFrom = none → Element.areLegible p.registers = true

instance : DecidablePred IsLegible := fun p => decidable_of_iff' _ (isLegible_iff p)

theorem IsTidy.isSpelled {common : Bool} {p : Peripheral} (h : p.IsTidy common)
    (hnamed : p.name ≠ "") (hlegible : p.IsLegible) : p.IsSpelled common where
  named := hnamed
  name := ⟨hlegible.name, h.name⟩
  common := h.common
  description := ⟨hlegible.description, h.description⟩
  groupName t ht := ⟨hlegible.groupName t ht, h.groupName t ht⟩
  prependToName := hlegible.prependToName
  appendToName t ht := ⟨hlegible.appendToName t ht, h.appendToName t ht⟩
  headerStructName t ht := ⟨hlegible.headerStructName t ht, h.headerStructName t ht⟩
  baseAddress := h.baseAddress
  defaults := h.defaults
  interrupts i hi := (h.interrupts i hi).isSpelled (hlegible.interrupts i hi)
  derivedFrom := hlegible.derivedFrom
  preferredAccessWidth _ := h.preferredAccessWidth
  forcedBlockMultiple _ := h.forcedBlockMultiple
  addressBlocks := hlegible.addressBlocks
  registers hown :=
    Element.areSpelled_of_areLegible p.registers h.registers (hlegible.registers hown)

end Peripheral

/-- The texts can be written. -/
@[mk_iff]
structure Cpu.IsLegible (c : Cpu) : Prop where
  name : IsWritable c.name
  revision : IsWritable c.revision
  endian : IsWritable c.endian

instance : DecidablePred Cpu.IsLegible := fun c => decidable_of_iff' _ (Cpu.isLegible_iff c)

theorem Cpu.IsTidy.isSpelled {c : Cpu} (h : c.IsTidy) (hlegible : c.IsLegible) : c.IsSpelled where
  name := ⟨hlegible.name, h.name⟩
  revision := ⟨hlegible.revision, h.revision⟩
  endian := ⟨hlegible.endian, h.endian⟩
  nvicPrioBits := h.nvicPrioBits

namespace Device

/-- The texts of the device can be written, and so can its parts. The numbers of the vectors without
a peripheral, which may have been counted up, fit. -/
@[mk_iff]
structure IsLegible (d : Device) : Prop where
  name : IsWritable d.name
  version : IsWritable d.version
  description : IsWritable d.description
  equivalentDevices : ∀ s ∈ d.equivalentDevices, IsWritable s
  cpu : ∀ c ∈ d.cpu, c.IsLegible
  peripherals : ∀ p ∈ d.peripherals, p.IsLegible
  vectors : ∀ i ∈ d.orphans, i.IsLegible ∧ i.index < Bits.limit 31

instance : DecidablePred IsLegible := fun d => decidable_of_iff' _ (isLegible_iff d)

theorem IsTidy.isSpelled {common : Bool} {d : Device} (h : d.IsTidy common) (hnamed : d.name ≠ "")
    (hparts : ∀ p ∈ d.peripherals, p.name ≠ "") (hdistinct : d.HasDistinctNames)
    (hlegible : d.IsLegible) : d.IsSpelled common where
  named := hnamed
  name := ⟨hlegible.name, h.name⟩
  version := ⟨hlegible.version, h.version⟩
  description := ⟨hlegible.description, h.description⟩
  equivalentDevices s hs := by
    obtain ⟨hne, htrimmed, hcomma⟩ := h.equivalentDevices s hs
    exact ⟨hne, ⟨hlegible.equivalentDevices s hs, htrimmed⟩, hcomma⟩
  addressUnitBits := h.addressUnitBits
  defaults := h.defaults
  cpu c hc := (h.cpu c hc).isSpelled (hlegible.cpu c hc)
  peripherals p hp := (h.peripherals p hp).isSpelled (hparts p hp) (hlegible.peripherals p hp)
  distinct := hdistinct

theorem IsTidy.isSpelled_orphans {common : Bool} {d : Device} (h : d.IsTidy common)
    (hlegible : d.IsLegible) : ∀ i ∈ d.orphans, i.IsSpelled := by
  intro i hi
  obtain ⟨hwritable, hhigh⟩ := hlegible.vectors i hi
  obtain ⟨hunowned, hlow⟩ := List.mem_filter.1 hi
  have htidy := h.hasTidyTexts_unownedVectors i hunowned
  exact {
    named := htidy.named
    name := ⟨hwritable.name, htidy.name⟩
    description := ⟨hwritable.description, htidy.description⟩
    low := (Int.neg_nonpos_of_nonneg (Int.natCast_nonneg _)).trans (of_decide_eq_true hlow)
    high := hhigh }

/-- The device of a document in its shortest form can be read again if it is legible. -/
theorem isSpelled_of_prepare {s : Settings} {text : String} {d : Device}
    (hformat : s.sourceFormat = .xml) (h : (Generation.prepare s text).toExcept = .ok d)
    (hlegible : d.IsLegible) :
    d.IsSpelled s.commonNames ∧ ∀ i ∈ d.orphans, i.IsSpelled := by
  rw [Generation.prepare, Outcome.toExcept_andThen, bind_eq_ok] at h
  obtain ⟨e, hload, hreduce⟩ := h
  have hread : (readSvd s.commonNames text).toExcept = .ok e := by
    rw [load, hformat, Outcome.toExcept_andThen, bind_eq_ok] at hload
    obtain ⟨e', hread, hcheck⟩ := hload
    obtain ⟨-, rfl⟩ := Outcome.check_ok hcheck
    exact Outcome.within_ok hread
  obtain ⟨hnamed, htidy, hsettled⟩ := isTidy_of_readSvd hread
  obtain ⟨hname, hnames⟩ := names_of_reduce hreduce
  have htidy := isTidy_of_reduce htidy hreduce
  refine ⟨htidy.isSpelled (hname ▸ hnamed) (fun p hp => ?_) ?_ hlegible,
    htidy.isSpelled_orphans hlegible⟩
  · have hp : p.name ∈ e.peripherals.map Peripheral.name :=
      hnames ▸ List.mem_map_of_mem hp
    obtain ⟨q, hq, hpq⟩ := List.mem_map.1 hp
    exact hpq ▸ (hsettled.peripherals q hq).named
  · unfold HasDistinctNames
    rw [hnames]
    exact hsettled.distinct

end Device

end RegisterMap
