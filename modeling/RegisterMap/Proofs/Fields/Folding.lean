import RegisterMap.Proofs.Fields.Admission
import RegisterMap.Proofs.Reordering
import RegisterMap.Proofs.Repeats

/-!
# Fields of folded registers

Folding derives registers from earlier ones with equivalent fields, and every register can still be
resolved (`Peripheral.fieldsOf_foldRegisters`). Its fields are what they were unless what it was
derived from before has been derived from another one, or another register has the name of the one
that it is derived from now and stands in front. `Peripheral.foldRegisters_loses` has a register of
either kind.
-/

namespace RegisterMap

/-- Lists of fields that are equivalent one by one, once they are in order. -/
def Field.AreEquivalent (fs gs : List Field) : Prop :=
  List.Forall₂ (fun f g => f.equivalent g none none = true) (fs.mergeSort precedes)
    (gs.mergeSort precedes)

namespace Field.AreEquivalent

variable {fs gs : List Field}

theorem refl (fs : List Field) : AreEquivalent fs fs :=
  List.forall₂_same.2 fun f _ => f.equivalent_self none

theorem symm (h : AreEquivalent fs gs) : AreEquivalent gs fs := by
  refine h.flip.imp fun g f hfg => ?_
  rwa [equivalent_comm]

theorem length_eq (h : AreEquivalent fs gs) : fs.length = gs.length := by
  simpa only [List.length_mergeSort] using List.Forall₂.length_eq h

end Field.AreEquivalent

namespace Peripheral

open Element

variable {p : Peripheral} {cmp : Comparison} {r s : Register}

theorem areEquivalent_of_describes (h : describes cmp s r = true) :
    Field.AreEquivalent r.fields s.fields := by
  simp only [describes, Bool.and_eq_true] at h
  have hfields := Register.forall₂_of_equivalentBody h.2
  exact Field.AreEquivalent.symm hfields

theorem derivedFrom_of_describes (h : describes cmp s r = true) : s.derivedFrom = none := by
  simp only [describes, Bool.and_eq_true, Option.isNone_iff_eq_none] at h
  exact h.1.1.1

/-- What folding makes of a register: itself, or one that is derived from a register of `out` that
describes it. -/
inductive FoldedIn (cmp : Comparison) (out : List Register) (r : Register) : Register → Prop
  | kept : FoldedIn cmp out r r
  | folded {s : Register} (own : hasOwnFields r = true) (source_mem : s ∈ out)
      (alike : describes cmp s r = true) :
      FoldedIn cmp out r { r with derivedFrom := some s.name, fields := [] }

namespace FoldedIn

variable {out out' : List Register} {r' : Register}

theorem name_eq (h : FoldedIn cmp out r r') : r'.name = r.name := by cases h <;> rfl

theorem mono (h : FoldedIn cmp out r r') (hout : ∀ s ∈ out, s ∈ out') : FoldedIn cmp out' r r' := by
  cases h with
  | kept => exact .kept
  | folded own hmem halike => exact .folded own (hout _ hmem) halike

/-- What is found under a name before is found under it afterwards, as folding made it. -/
theorem exists_find? {rs rs' : List Register} (h : List.Forall₂ (FoldedIn cmp out) rs rs')
    {name : String} (hs : rs.find? (fun r => r.name == name) = some s) :
    ∃ t, rs'.find? (fun r => r.name == name) = some t ∧ FoldedIn cmp out s t := by
  induction h with
  | nil => cases hs
  | @cons r r' rs rs' hr _ ih =>
    rw [List.find?_cons] at hs ⊢
    rw [hr.name_eq]
    cases hname : r.name == name with
    | true =>
      rw [hname] at hs
      cases hs
      exact ⟨r', rfl, hr⟩
    | false =>
      rw [hname] at hs
      exact ih hs

end FoldedIn

/-! ## One step and the whole list -/

theorem exists_of_describing? {earlier : List Element} (h : describing? cmp earlier r = some s) :
    s ∈ registersAll earlier ∧ describes cmp s r = true := by
  obtain ⟨e, he, hs⟩ := List.exists_of_findSome?_eq_some h
  cases e with
  | cluster c es => cases hs
  | register t =>
    obtain ⟨halike, hs⟩ := Option.ite_none_right_eq_some.1 hs
    cases hs
    exact ⟨mem_registersAll_of_mem he, halike⟩

theorem foldedIn_foldElement (cmp : Comparison) (earlier : List Element) (e : Element) :
    List.Forall₂ (FoldedIn cmp (registersAll earlier)) e.registers
      (foldElement cmp earlier e).registers := by
  cases e with
  | cluster c es => exact List.forall₂_same.2 fun _ _ => .kept
  | register r =>
    rw [foldElement]
    split
    · rename_i hown
      split
      · rename_i s hs
        obtain ⟨hmem, halike⟩ := exists_of_describing? hs
        exact .cons (.folded hown hmem halike) .nil
      · exact .cons .kept .nil
    · exact .cons .kept .nil

/-- Each register of a list is folded among the earlier ones and the results. -/
theorem foldedIn_foldElements (cmp : Comparison) (earlier es : List Element) :
    List.Forall₂ (FoldedIn cmp (registersAll (earlier ++ foldElements cmp earlier es)))
      (registersAll es) (registersAll (foldElements cmp earlier es)) := by
  induction es generalizing earlier with
  | nil => exact .nil
  | cons e es ih =>
    have htail := ih (earlier ++ [foldElement cmp earlier e])
    rw [List.append_assoc] at htail
    have hsub : registersAll earlier ⊆
        registersAll (earlier ++ foldElements cmp earlier (e :: es)) := by
      rw [registersAll_append]
      exact List.subset_append_left ..
    have hhead := (foldedIn_foldElement cmp earlier e).imp fun _ _ h => h.mono fun s hs => hsub hs
    exact List.rel_append hhead htail

theorem foldedIn_foldRegisters (p : Peripheral) (cmp : Comparison) :
    List.Forall₂ (FoldedIn cmp (registersAll (p.foldRegisters cmp).registers))
      (registersAll p.registers) (registersAll (p.foldRegisters cmp).registers) :=
  foldedIn_foldElements cmp [] p.registers

/-! ## Resolving -/

theorem described?_of_none (h : r.derivedFrom = none) : p.described? r = some r := by
  rw [described?, h]

theorem described?_of_some {source : String} (h : r.derivedFrom = some source) :
    p.described? r = findIn? source p.registers := by
  rw [described?, h]

theorem follows_iff_of_described (h : p.described? r = some s) :
    Follows p.registers r ↔ s.derivedFrom = none := by
  unfold Follows
  cases hsource : r.derivedFrom with
  | none =>
    rw [described?_of_none hsource] at h
    cases h
    simp [hsource]
  | some source =>
    rw [described?_of_some hsource] at h
    simp [h]

/-- A register that is not folded is described by the same one, as folding made it. -/
theorem exists_described_of_kept (hp : p.validate = .ok ()) (hr : r ∈ registersAll p.registers)
    (cmp : Comparison) :
    ∃ s t, p.described? r = some s ∧ s.derivedFrom = none ∧
      (p.foldRegisters cmp).described? r = some t ∧
      FoldedIn cmp (registersAll (p.foldRegisters cmp).registers) s t := by
  obtain ⟨s, -, hs, hunderived⟩ := exists_described hp hr
  cases hsource : r.derivedFrom with
  | none =>
    have hrs : r = s := Option.some.inj ((described?_of_none hsource).symm.trans hs)
    exact ⟨s, r, hs, hunderived, described?_of_none hsource, hrs ▸ .kept⟩
  | some source =>
    have hfound := hs
    rw [described?_of_some hsource, findIn?_eq_find?_registersAll] at hfound
    obtain ⟨t, ht, hst⟩ := FoldedIn.exists_find? (foldedIn_foldRegisters p cmp) hfound
    rw [← findIn?_eq_find?_registersAll] at ht
    exact ⟨s, t, hs, hunderived, (described?_of_some hsource).trans ht, hst⟩

/-- The register has as many fields in the second peripheral as in the first, equivalent ones. -/
def KeepsFields (p q : Peripheral) (r r' : Register) : Prop :=
  ∃ fs fs', p.fieldsOf r = .ok fs ∧ q.fieldsOf r' = .ok fs' ∧ Field.AreEquivalent fs fs'

variable {r' : Register} {out : List Register}

theorem fieldsOf_of_hasOwnFields (h : hasOwnFields r = true) :
    p.fieldsOf r = .ok r.fields ∧ r.fields ≠ [] := by
  simp only [hasOwnFields, Bool.and_eq_true, Option.isNone_iff_eq_none, Bool.not_eq_true',
    List.isEmpty_eq_false_iff] at h
  exact ⟨p.fieldsOf_of_none h.1, h.2⟩

/-- What folding made of a register can be resolved, and where its fields are not what they were, it
does not follow a source any more or it follows another one. -/
theorem fieldsOf_of_foldedIn (hp : p.validate = .ok ()) (hr : r ∈ registersAll p.registers)
    (h : FoldedIn cmp (registersAll (p.foldRegisters cmp).registers) r r') :
    ∃ fs fs', p.fieldsOf r = .ok fs ∧ (p.foldRegisters cmp).fieldsOf r' = .ok fs' ∧
      ((Field.AreEquivalent fs fs' ∧ Follows (p.foldRegisters cmp).registers r') ∨
        (r' = r ∧ ¬Follows (p.foldRegisters cmp).registers r ∧ fs ≠ [] ∧ fs' = []) ∨
        ∃ s t, describes cmp s r = true ∧ r'.derivedFrom = some s.name ∧
          Hides (p.foldRegisters cmp).registers t s ∧ fs' = t.fields) := by
  cases h with
  | kept =>
    obtain ⟨s, t, hs, hunderived, ht, hst⟩ := exists_described_of_kept hp hr cmp
    refine ⟨s.fields, t.fields, fieldsOf_eq_ok_iff.2 ⟨s, hs, rfl⟩,
      fieldsOf_eq_ok_iff.2 ⟨t, ht, rfl⟩, ?_⟩
    have hfollows := follows_iff_of_described ht
    cases hst with
    | kept => exact .inl ⟨.refl _, hfollows.2 hunderived⟩
    | folded own _ _ =>
      have hstranded : ¬Follows (p.foldRegisters cmp).registers r := mt hfollows.1 nofun
      exact .inr (.inl ⟨rfl, hstranded, (fieldsOf_of_hasOwnFields (p := p) own).2, rfl⟩)
  | @folded s own hmem halike =>
    obtain ⟨t, ht, hfront⟩ := exists_findIn?_of_mem hmem
    refine ⟨r.fields, t.fields, (fieldsOf_of_hasOwnFields own).1,
      fieldsOf_eq_ok_iff.2 ⟨t, ht, rfl⟩, ?_⟩
    rcases hfront with rfl | hhides
    · have hdescribed : (p.foldRegisters cmp).described?
          { r with derivedFrom := some t.name, fields := [] } = some t := ht
      have hfollows := (follows_iff_of_described hdescribed).2 (derivedFrom_of_describes halike)
      exact .inl ⟨areEquivalent_of_describes halike, hfollows⟩
    · exact .inr (.inr ⟨s, t, halike, rfl, hhides, rfl⟩)

/-- Where the names are different, what folding made of a register keeps its fields unless what it
was derived from was folded as well. -/
theorem follows_iff_keepsFields (hp : p.validate = .ok ())
    (hnames : HasDistinctNames (p.foldRegisters cmp).registers) (hr : r ∈ registersAll p.registers)
    (h : FoldedIn cmp (registersAll (p.foldRegisters cmp).registers) r r') :
    Follows (p.foldRegisters cmp).registers r' ↔ KeepsFields p (p.foldRegisters cmp) r r' := by
  obtain ⟨fs, fs', hfs, hfs', hcases⟩ := fieldsOf_of_foldedIn hp hr h
  rcases hcases with ⟨hsame, hfollows⟩ | ⟨rfl, hstranded, hfull, rfl⟩ | ⟨s, t, -, -, hhides, -⟩
  · exact iff_of_true hfollows ⟨fs, fs', hfs, hfs', hsame⟩
  · refine iff_of_false hstranded ?_
    rintro ⟨gs, gs', hgs, hgs', hsame⟩
    cases hfs.symm.trans hgs
    cases hfs'.symm.trans hgs'
    exact hfull (List.length_eq_zero_iff.1 hsame.length_eq)
  · exact absurd hhides (hnames.not_hides t s)

theorem validate_of_foldedIn (h : FoldedIn cmp out r r') (hr : r.validate = .ok ()) :
    r'.validate = .ok () := by
  cases h with
  | kept => exact hr
  | folded => rfl

theorem map_name_foldRegisters (p : Peripheral) (cmp : Comparison) :
    (registersAll (p.foldRegisters cmp).registers).map Register.name =
      (registersAll p.registers).map Register.name :=
  map_eq_map_of_forall₂ ((foldedIn_foldRegisters p cmp).flip.imp fun _ _ h => h.name_eq)

/-- Folding leaves a peripheral with different names valid exactly when every register keeps its
fields. -/
theorem validate_foldRegisters_iff (hp : p.validate = .ok ())
    (hnames : HasDistinctNames p.registers) (cmp : Comparison) :
    (p.foldRegisters cmp).validate = .ok () ↔
      List.Forall₂ (KeepsFields p (p.foldRegisters cmp)) (registersAll p.registers)
        (registersAll (p.foldRegisters cmp).registers) := by
  have hnames' : HasDistinctNames (p.foldRegisters cmp).registers := by
    unfold HasDistinctNames
    rwa [map_name_foldRegisters]
  have hfolded := foldedIn_foldRegisters p cmp
  obtain ⟨hempty, hregisters⟩ := validate_eq_ok_iff.1 hp
  rw [validate_eq_ok_iff]
  constructor
  · rintro ⟨-, hvalid⟩
    exact forall₂_imp_of_mem hfolded fun r hr r' hr' hfold =>
      (follows_iff_keepsFields hp hnames' hr hfold).1 (hvalid r' hr').2
  · intro hkeeps
    refine ⟨fun hderived => ?_, fun r' hr' => ?_⟩
    · rw [foldRegisters, hempty hderived]
      rfl
    · obtain ⟨r, hr, hfold, hkeep⟩ :=
        exists_mem_of_forall₂ (hfolded.mp (fun _ _ => And.intro) hkeeps) hr'
      exact ⟨validate_of_foldedIn hfold (hregisters r hr).1,
        (follows_iff_keepsFields hp hnames' hr hfold).2 hkeep⟩

/-- **Folding registers.** Every register of a valid peripheral can be resolved before and after,
and its fields are equivalent unless it is derived from a register that is derived itself after
folding, when it has none left, or it was folded and the register that describes it is hidden by
another one of its name. Where the names are different, the peripheral stays valid exactly when
every register keeps its fields. -/
theorem fieldsOf_foldRegisters (hp : p.validate = .ok ()) (cmp : Comparison) :
    List.Forall₂ (fun r r' => ∃ fs fs', p.fieldsOf r = .ok fs ∧
        (p.foldRegisters cmp).fieldsOf r' = .ok fs' ∧
        (Field.AreEquivalent fs fs' ∨
          (r' = r ∧ ¬Follows (p.foldRegisters cmp).registers r ∧ fs ≠ [] ∧ fs' = []) ∨
          ∃ s t, describes cmp s r = true ∧ r'.derivedFrom = some s.name ∧
            Hides (p.foldRegisters cmp).registers t s ∧ fs' = t.fields))
      (registersAll p.registers) (registersAll (p.foldRegisters cmp).registers) ∧
    (HasDistinctNames p.registers →
      ((p.foldRegisters cmp).validate = .ok () ↔
        List.Forall₂ (KeepsFields p (p.foldRegisters cmp)) (registersAll p.registers)
          (registersAll (p.foldRegisters cmp).registers))) := by
  refine ⟨?_, fun hnames => validate_foldRegisters_iff hp hnames cmp⟩
  refine forall₂_imp_of_mem (foldedIn_foldRegisters p cmp) fun r hr r' _ hfold => ?_
  obtain ⟨fs, fs', hfs, hfs', hcases⟩ := fieldsOf_of_foldedIn hp hr hfold
  exact ⟨fs, fs', hfs, hfs', hcases.imp_left And.left⟩

section Example

private def enable : Field := { name := "EN", bitOffset := 0, bitWidth := 1 }

private def ready : Field := { name := "RDY", bitOffset := 7, bitWidth := 1 }

private def described (name : String) (offset : Nat) (f : Field) : Register :=
  { Register.plain name offset 32 with fields := [f] }

private def copy (name : String) (offset : Nat) (source : String) : Register :=
  { Register.plain name offset 32 with derivedFrom := some source }

/-- Two registers with the same field, and in front of them a copy of the first in a cluster. -/
private def dma : Peripheral :=
  { name := "DMA", baseAddress := 0,
    registers := [.cluster { name := "DEBUG", offset := 0x20 } [.register (copy "SHADOW" 0 "TX")],
      .register (described "TX" 0 enable), .register (described "RX" 4 enable)] }

theorem fieldsOf_foldRegisters_dma : dma.validate = .ok () ∧ HasDistinctNames dma.registers ∧
    registersAll (dma.foldRegisters {}).registers =
      [copy "SHADOW" 0 "TX", described "TX" 0 enable, copy "RX" 4 "TX"] ∧
    List.Forall₂ (KeepsFields dma (dma.foldRegisters {})) (registersAll dma.registers)
      (registersAll (dma.foldRegisters {}).registers) := by
  have hvalid : dma.validate = .ok () := by cbv
  have hnames : HasDistinctNames dma.registers := by decide +kernel
  have hfolded : (dma.foldRegisters {}).validate = .ok () := by cbv
  exact ⟨hvalid, hnames, by cbv, ((fieldsOf_foldRegisters hvalid {}).2 hnames).1 hfolded⟩

/-- A copy of the second register. -/
private def stranded : Peripheral :=
  { name := "DMA", baseAddress := 0,
    registers := [.register (described "TX" 0 enable), .register (described "RX" 4 enable),
      .register (copy "SHADOW" 8 "RX")] }

/-- In front of the registers is another one of the same name in a cluster. -/
private def hidden : Peripheral :=
  { name := "DMA", baseAddress := 0,
    registers := [.cluster { name := "DEBUG", offset := 0x20 } [.register (described "TX" 0 ready)],
      .register (described "TX" 0 enable), .register (described "RX" 4 enable)] }

/-- What is derived from a register that is folded has no fields any more, and a register that is
folded gets the fields of another one with the name of the one that describes it. -/
theorem foldRegisters_loses :
    (stranded.validate = .ok () ∧
      copy "SHADOW" 8 "RX" ∈ registersAll (stranded.foldRegisters {}).registers ∧
      stranded.fieldsOf (copy "SHADOW" 8 "RX") = .ok [enable] ∧
      (stranded.foldRegisters {}).fieldsOf (copy "SHADOW" 8 "RX") = .ok []) ∧
    (hidden.validate = .ok () ∧ (hidden.foldRegisters {}).validate = .ok () ∧
      copy "RX" 4 "TX" ∈ registersAll (hidden.foldRegisters {}).registers ∧
      hidden.fieldsOf (described "RX" 4 enable) = .ok [enable] ∧
      (hidden.foldRegisters {}).fieldsOf (copy "RX" 4 "TX") = .ok [ready] ∧
      enable.equivalent ready none none = false) := by
  refine ⟨⟨by cbv, ?_, by cbv, by cbv⟩, by cbv, by cbv, ?_, by cbv, by cbv, by cbv⟩
  · decide +kernel
  · decide +kernel

end Example

end Peripheral

end RegisterMap
