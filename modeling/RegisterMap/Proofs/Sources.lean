import Mathlib
import RegisterMap.Proofs.Arrays.Everywhere
import RegisterMap.Proofs.KeptNames
import RegisterMap.Proofs.Reordering
import RegisterMap.Proofs.Validity

/-!
# Sources of derived registers

Folding arrays, grouping clusters and taking common name parts give registers other names, and leave
the names by which derived registers refer to their sources. All that can make a valid peripheral
invalid is that a source is no longer found under its name, or another register is
(`Peripheral.validate_of_renames`); neither happens if the names of the sources stay
(`Peripheral.KeepsName`). `Peripheral.renames_sources` has one peripheral that becomes invalid for
each of the three.
-/

namespace RegisterMap

open Element

/-! ## Nothing is made up -/

namespace Element

theorem descends_withName (e : Element) (name : String) : Descends [e] [e.withName name] := by
  cases e with
  | register r => exact descends_register (List.mem_singleton_self _) ⟨rfl, rfl, rfl, rfl, rfl, rfl⟩
  | cluster c es => exact .of_subset fun _ h => h

theorem descends_map {f : Element → Element} (hf : ∀ e, Descends [e] [f e]) (es : List Element) :
    Descends es (es.map f) := by
  refine descends_iff.2 fun g hg => ?_
  obtain ⟨e, he, rfl⟩ := List.mem_map.1 hg
  exact (descends_of_mem he).trans (hf e)

/-- To descend is a property that registers have everywhere. -/
theorem descends_iff_everywhere {es fs : List Element} :
    Descends es fs ↔ ∀ f ∈ fs,
      f.Everywhere (fun s => ∃ r ∈ registersAll es, r.SameContent s) fun _ => True := by
  rw [Descends, registersAll_eq_flatMap fs, List.forall_mem_flatMap]
  simp only [everywhere_iff_registers]

end Element

/-- Deleted registers and arrays describe what the registers did. -/
theorem Arrays.Site.respects_sameContent (site : Site) (rs : List Register) :
    site.Respects fun s => ∃ r ∈ rs, r.SameContent s where
  delete := fun ⟨r, hr, h⟩ =>
    ⟨r, hr, h.width_eq, h.access_eq, h.resetValue_eq, h.resetMask_eq, h.fields_eq,
      h.derivedFrom_eq⟩
  array hs h is := by
    obtain ⟨-, rfl, -⟩ := Site.seed?_eq_some hs
    obtain ⟨r, hr, h⟩ := h
    exact ⟨r, hr, h.width_eq, h.access_eq, h.resetValue_eq, h.resetMask_eq, h.fields_eq,
      h.derivedFrom_eq⟩

namespace Peripheral

variable {p q : Peripheral}

theorem descends_foldArrays (p : Peripheral) (cmp : Comparison) :
    Descends p.registers (p.foldArrays cmp).state.registers :=
  descends_iff_everywhere.2 (everywhere_foldArrays (Arrays.Site.respects_sameContent _ _)
    (descends_iff_everywhere.1 (.refl p.registers)))

theorem descends_extractPrefix (p : Peripheral) (conflicts : List String) :
    Descends p.registers
      (Workpiece.extractPrefix ⟨p, conflicts⟩).state.peripheral.registers := by
  by_cases h : p.HasNoPrefix
  · rw [extractPrefix_of_hasNoPrefix h conflicts]
    exact .refl _
  · obtain ⟨-, description, hstate⟩ := extractPrefix_of_not_hasNoPrefix (w := ⟨p, conflicts⟩) h
    rw [hstate]
    exact descends_map (fun e => descends_withName e _) _

/-- A reduction that renames registers and has come to its end. -/
inductive Renames (p : Peripheral) : Peripheral → Prop
  | arrays (cmp : Comparison) (done : (p.foldArrays cmp).failure = none) :
      Renames p (p.foldArrays cmp).state
  | clusters (done : p.groupClusters.failure = none) : Renames p p.groupClusters.state
  | commonPrefix (conflicts : List String)
      (done : (Workpiece.extractPrefix ⟨p, conflicts⟩).failure = none) :
      Renames p (Workpiece.extractPrefix ⟨p, conflicts⟩).state.peripheral

theorem Renames.descends (h : p.Renames q) : Descends p.registers q.registers := by
  cases h with
  | arrays cmp => exact p.descends_foldArrays cmp
  | clusters => exact p.reached_groupClusters.2.descends
  | commonPrefix conflicts => exact p.descends_extractPrefix conflicts

/-- A derived peripheral, which has no registers, stays without. -/
theorem Renames.registers_eq_nil (h : p.Renames q) (hp : p.isDerived = true → p.registers = [])
    (hq : q.isDerived = true) : q.registers = [] := by
  cases h with
  | arrays cmp =>
    have hderived : p.isDerived = true := by
      rw [foldArrays_state] at hq
      exact hq
    unfold foldArrays
    rw [hderived]
    exact hp hderived
  | clusters =>
    have hderived : p.isDerived = true := by
      rw [groupClusters_state] at hq
      exact hq
    unfold groupClusters
    rw [if_pos hderived]
    exact hp hderived
  | commonPrefix conflicts =>
    by_cases hnone : p.HasNoPrefix
    · rw [extractPrefix_of_hasNoPrefix hnone conflicts] at hq ⊢
      exact hp hq
    · obtain ⟨-, description, hstate⟩ :=
        extractPrefix_of_not_hasNoPrefix (w := ⟨p, conflicts⟩) hnone
      rw [hstate] at hq ⊢
      have hempty : p.registers = [] := hp hq
      simp [takePrefix, hempty]

/-- A source is found behind the reduction if its name stays and leads to sources only. -/
theorem KeepsName.exists_source {source : String} (h : p.KeepsName q source) {s : Register}
    (hs : findIn? source p.registers = some s)
    (hown : ∀ t ∈ registersAll p.registers, t.name = source → t.derivedFrom = none) :
    ∃ t, findIn? source q.registers = some t ∧ t.derivedFrom = none := by
  have hsname := name_of_findIn? _ hs
  have hmem := h.named.mem_iff.2 (mem_named.2 ⟨mem_registersAll_of_findIn? _ hs, hsname⟩)
  obtain ⟨t, ht, -⟩ := exists_findIn?_of_mem (mem_named.1 hmem).1
  rw [hsname] at ht
  have hbefore := h.named.mem_iff.1
    (mem_named.2 ⟨mem_registersAll_of_findIn? _ ht, name_of_findIn? _ ht⟩)
  exact ⟨t, ht, hown t (mem_named.1 hbefore).1 (mem_named.1 hbefore).2⟩

/-- **Sources.** A reduction that renames the registers of a valid peripheral leaves each with what
it describes and with the name of its source. So the peripheral stays valid exactly when each of
these names still leads to a register that is not derived, as it does if it leads to the same one,
and otherwise it fails for one that does not. It stays valid if the names of the sources stay and
are not those of derived registers as well. -/
theorem validate_of_renames (hp : p.validate = .ok ()) (h : p.Renames q) :
    Descends p.registers q.registers ∧
    (q.validate = .ok () ↔ ∀ r ∈ registersAll q.registers, ∀ source,
      r.derivedFrom = some source →
        ∃ s, findIn? source q.registers = some s ∧ s.derivedFrom = none) ∧
    (∀ f, q.validate = .error f → ∃ r ∈ registersAll p.registers, ∃ source,
      r.derivedFrom = some source ∧ f.cause = .unresolvedDerivation source) ∧
    ((∀ r ∈ registersAll p.registers, ∀ source, r.derivedFrom = some source →
        findIn? source q.registers = findIn? source p.registers) → q.validate = .ok ()) ∧
    ((∀ r ∈ registersAll p.registers, ∀ source, r.derivedFrom = some source →
        p.KeepsName q source ∧
          ∀ s ∈ registersAll p.registers, s.name = source → s.derivedFrom = none) →
      q.validate = .ok ()) := by
  obtain ⟨hempty, hvalid⟩ := validate_eq_ok_iff.1 hp
  have hdescends := h.descends
  have hown : ∀ s ∈ registersAll q.registers, s.validate = .ok () := by
    intro s hs
    obtain ⟨r, hr, hsame⟩ := hdescends s hs
    exact hsame.validate (hvalid r hr).1
  have hiff : q.validate = .ok () ↔ ∀ r ∈ registersAll q.registers, Follows q.registers r := by
    rw [validate_eq_ok_iff]
    exact ⟨fun hq r hr => (hq.2 r hr).2,
      fun hq => ⟨h.registers_eq_nil hempty, fun r hr => ⟨hown r hr, hq r hr⟩⟩⟩
  refine ⟨hdescends, hiff, fun f hf => ?_, fun hkept => hiff.2 fun s hs source hsource => ?_,
    fun hkept => hiff.2 fun s hs source hsource => ?_⟩
  · unfold validate at hf
    split at hf
    · rename_i howns
      rw [Bool.and_eq_true, Bool.not_eq_true'] at howns
      simp [h.registers_eq_nil hempty howns.1] at howns
    · obtain ⟨g, hg, hcause⟩ := cause_of_within hf
      obtain ⟨s, hs, source, hsource, hfails⟩ := failsForSource_of_checkElements _ hown hg
      obtain ⟨r, hr, hsame⟩ := hdescends s hs
      exact ⟨r, hr, source, hsame.derivedFrom_eq ▸ hsource, hcause.trans hfails⟩
  · obtain ⟨r, hr, hsame⟩ := hdescends s hs
    have hsource : r.derivedFrom = some source := hsame.derivedFrom_eq ▸ hsource
    rw [hkept r hr source hsource]
    exact (hvalid r hr).2 source hsource
  · obtain ⟨r, hr, hsame⟩ := hdescends s hs
    have hsource : r.derivedFrom = some source := hsame.derivedFrom_eq ▸ hsource
    obtain ⟨t, ht, -⟩ := (hvalid r hr).2 source hsource
    obtain ⟨hname, hown⟩ := hkept r hr source hsource
    exact hname.exists_source ht hown

section Example

private def withCopy (name : String) (words : List String) (copy source : String) : Peripheral :=
  { name, baseAddress := 0,
    registers := (words.zipIdx.map fun (word, i) => .register (.plain word (4 * i) 32)) ++
      [.register { Register.plain copy 0x10 32 with derivedFrom := some source }] }

/-- The data registers become an array; the copy is one of the control register. -/
private def spi : Peripheral := withCopy "SPI" ["D0", "D1", "CTRL"] "COPY" "CTRL"

private def spiFolded : Peripheral :=
  { spi with
    registers := [.register (.plain "D%s" 0 32 (some (.counted 4 2))),
      .register (.plain "CTRL" 8 32),
      .register { Register.plain "COPY" 0x10 32 with derivedFrom := some "CTRL" }] }

theorem validate_of_renames_spi : spi.validate = .ok () ∧ spi.Renames spiFolded ∧
    spiFolded.validate = .ok () := by
  have hvalid : spi.validate = .ok () := by cbv
  have hfolded : spi.foldArrays {} = .pure spiFolded := by cbv
  have hrenames : spi.Renames spiFolded := by
    have h := Renames.arrays (p := spi) {} (by rw [hfolded]; rfl)
    rw [hfolded] at h
    exact h
  have hregisters : registersAll spi.registers = [.plain "D0" 0 32, .plain "D1" 4 32,
    .plain "CTRL" 8 32, { Register.plain "COPY" 0x10 32 with derivedFrom := some "CTRL" }] := by cbv
  -- the name of the source has no index, and is not that of an array
  have hspared : Arrays.Site.Spares ⟨"SPI", {}⟩ "CTRL" spi.registers := by
    have hall : ((registersAll spi.registers).all fun r =>
        ((Arrays.ruleOf "SPI").split? r.name).all (·.1 != "CTRL")) = true := by cbv
    refine ⟨by cbv, fun r hr a ha => ?_⟩
    have hother := List.all_eq_true.1 hall r hr
    rw [Option.mem_def.1 ha] at hother
    exact bne_iff_ne.1 hother
  have hkeeps : spi.KeepsName spiFolded "CTRL" := by
    have h := KeepsName.arrays (p := spi) {} (by cbv) (by rw [hfolded]; rfl) hspared
    rw [hfolded] at h
    exact h
  obtain ⟨-, -, -, -, hkept⟩ := validate_of_renames hvalid hrenames
  refine ⟨hvalid, hrenames, hkept fun r hr source hsource => ?_⟩
  rw [hregisters] at hr ⊢
  simp only [List.mem_cons, List.not_mem_nil, or_false] at hr
  rcases hr with rfl | rfl | rfl | rfl
  · cases hsource
  · cases hsource
  · cases hsource
  · cases hsource
    refine ⟨hkeeps, ?_⟩
    simp [Register.plain]

private def uart : Peripheral := withCopy "UART" ["D0", "D1"] "COPY" "D1"

private def ftm : Peripheral := withCopy "FTM0" ["C0SC", "C1SC"] "COPY" "C0SC"

private def adc : Peripheral := withCopy "ADC" ["ADC_SC", "ADC_R"] "ADC_COPY" "ADC_SC"

/-- An element of an array, an instance of a member and a register with the common part in its name
are no longer found by what derives from them. -/
theorem renames_sources :
    (uart.validate = .ok () ∧ (uart.foldArrays {}).failure = none ∧
      (uart.foldArrays {}).state.validate =
        .error ⟨[.peripheral "UART", .register "COPY"], .unresolvedDerivation "D1"⟩) ∧
    (ftm.validate = .ok () ∧ ftm.groupClusters.failure = none ∧
      ftm.groupClusters.state.validate =
        .error ⟨[.peripheral "FTM0", .register "COPY"], .unresolvedDerivation "C0SC"⟩) ∧
    (adc.validate = .ok () ∧ (Workpiece.extractPrefix ⟨adc, []⟩).failure = none ∧
      (Workpiece.extractPrefix ⟨adc, []⟩).state.peripheral.validate =
        .error ⟨[.peripheral "ADC", .register "COPY"], .unresolvedDerivation "ADC_SC"⟩) := by
  have hfolded : uart.foldArrays {} = .pure { uart with
      registers := [.register (.plain "D%s" 0 32 (some (.counted 4 2))),
        .register { Register.plain "COPY" 0x10 32 with derivedFrom := some "D1" }] } := by cbv
  have hprefix : ¬adc.HasNoPrefix := by
    have hremovable : CommonPrefix.isRemovable (CommonPrefix.ofNames adc.elementNames)
        adc.elementNames = true := by cbv
    rintro (h | h)
    · cases h
    · rw [hremovable] at h
      cases h
  obtain ⟨hdone, description, hstate⟩ :=
    extractPrefix_of_not_hasNoPrefix (w := ⟨adc, []⟩) hprefix
  refine ⟨⟨by cbv, by rw [hfolded]; rfl, by rw [hfolded]; cbv⟩,
    ⟨by cbv, ftm.reached_groupClusters.1, by cbv⟩, ⟨by cbv, hdone, ?_⟩⟩
  rw [hstate]
  cbv

end Example

end Peripheral

end RegisterMap
