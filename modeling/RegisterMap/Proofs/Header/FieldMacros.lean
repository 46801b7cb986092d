import RegisterMap.Proofs.Header.Typedefs
import RegisterMap.Proofs.Sorting

/-!
# Field macros of a header

A header that is rendered has, for each field that it describes, one definition of the field's name,
with the field's bits (`Header.render_fieldMacros`). The names given away are a table through the
whole run; each step adds the definitions that its fields lack (`macros_ofFields` up to
`Header.macros_peripherals`). Where two fields want one name for different bits, the run fails at
the one that it comes to last.
-/

namespace RegisterMap

namespace FieldMacro

variable {s : Settings} {p : Peripheral} {r : Register} {type : WordType} {f : Field}
  {defined defined' : DefinedMacros} {fs : List Field} {rs : List Register} {new : List Part}
  {out : List FieldMacro}

/-! ## What the run over registers writes -/

/-- The macros are for these bits, and place values in them if they are more than one. -/
structure Fits (m : FieldMacro) (bits : Nat × Nat) : Prop where
  bits_eq : (m.offset, m.width) = bits
  places_iff : m.valueType.isSome = true ↔ 1 < m.width

/-- The field macros written so far are those of the table, with its bits. -/
abbrev MacrosWritten (defined : DefinedMacros) (out : List FieldMacro) : Prop :=
  DefinedBy FieldMacro.name Fits defined out

/-- The names of a register's fields stand for their bits, if the register has macros. -/
def HasMacros (s : Settings) (p : Peripheral) (defined : DefinedMacros) (r : Register) : Prop :=
  isDescribed r = true → ∃ fields, p.fieldsOf r = .ok fields ∧
    ∀ f ∈ fields, defined.lookup (nameOf s p r f) = some (f.bitOffset, f.bitWidth)

theorem HasMacros.mono (h : HasMacros s p defined r) (hext : Extends defined defined') :
    HasMacros s p defined' r := by
  intro hdescribed
  obtain ⟨fields, hfields, hall⟩ := h hdescribed
  exact ⟨fields, hfields, fun f hf => hext _ _ (hall f hf)⟩

theorem inOrder_perm (fs : List Field) : (inOrder fs).Perm fs := List.mergeSort_perm fs _

theorem ofField_ok {name : String} {m : FieldMacro} (h : ofField name p r type f = .ok m) :
    m.name = name ∧ Fits m (f.bitOffset, f.bitWidth) := by
  unfold ofField at h
  split at h
  · rename_i hwide
    obtain ⟨valueType, hvalue, h⟩ := bind_eq_ok.1 h
    cases h
    refine ⟨rfl, rfl, ?_⟩
    cases htype : WordType.ofWidth f.bitWidth with
    | error e =>
      rw [htype] at hvalue
      cases hvalue
    | ok t =>
      rw [htype] at hvalue
      cases hvalue
      exact ⟨fun _ => hwide, fun _ => rfl⟩
  · rename_i hnarrow
    cases h
    exact ⟨rfl, rfl, nofun, fun h => absurd h hnarrow⟩

theorem macros_ofFields (h : ofFields s p r type defined fs = .ok (new, defined'))
    (hw : MacrosWritten defined out) :
    MacrosWritten defined' (out ++ Part.fieldMacros new) ∧ Extends defined defined' ∧
      ∀ f ∈ fs, defined'.lookup (nameOf s p r f) = some (f.bitOffset, f.bitWidth) := by
  induction fs generalizing defined new out with
  | nil =>
    cases h
    rw [Part.fieldMacros_nil, List.append_nil]
    exact ⟨hw, .refl _, fun f hf => by cases hf⟩
  | cons f fs ih =>
    rcases ofFields_cons_ok h with ⟨hthere, hrest⟩ | ⟨hnone, m, rest, hm, hrest, rfl⟩
    · obtain ⟨hwritten, hext, hall⟩ := ih hrest hw
      exact ⟨hwritten, hext, List.forall_mem_cons.2 ⟨hext _ _ hthere, hall⟩⟩
    · obtain ⟨hname, hfits⟩ := ofField_ok hm
      rw [← hname] at hnone hrest
      obtain ⟨hwritten, hext, hall⟩ := ih hrest (hw.concat hnone hfits)
      rw [List.append_assoc] at hwritten
      refine ⟨hwritten, (extends_cons hnone _).trans hext, List.forall_mem_cons.2 ⟨?_, hall⟩⟩
      rw [← hname]
      exact hext _ _ List.lookup_cons_self

theorem macros_ofRegister (h : ofRegister s p defined r = .ok (new, defined'))
    (hw : MacrosWritten defined out) :
    MacrosWritten defined' (out ++ Part.fieldMacros new) ∧ Extends defined defined' ∧
      HasMacros s p defined' r := by
  rcases ofRegister_ok h with ⟨hnot, rfl, rfl⟩ |
    ⟨-, fields, hfields, ⟨rfl, rfl, rfl⟩ | ⟨type, rest, -, hrest, rfl⟩⟩
  · rw [Part.fieldMacros_nil, List.append_nil]
    refine ⟨hw, .refl _, fun hdescribed => ?_⟩
    rw [hnot] at hdescribed
    cases hdescribed
  · rw [Part.fieldMacros_nil, List.append_nil]
    exact ⟨hw, .refl _, fun _ => ⟨[], hfields, fun f hf => by cases hf⟩⟩
  · obtain ⟨hwritten, hext, hall⟩ := macros_ofFields hrest hw
    refine ⟨hwritten, hext, fun _ => ⟨fields, hfields, fun f hf => hall f ?_⟩⟩
    exact (inOrder_perm fields).mem_iff.2 hf

theorem macros_ofRegisters (h : ofRegisters s p defined rs = .ok (new, defined'))
    (hw : MacrosWritten defined out) :
    MacrosWritten defined' (out ++ Part.fieldMacros new) ∧ Extends defined defined' ∧
      ∀ r ∈ rs, HasMacros s p defined' r := by
  induction rs generalizing defined new out with
  | nil =>
    cases h
    rw [Part.fieldMacros_nil, List.append_nil]
    exact ⟨hw, .refl _, fun r hr => by cases hr⟩
  | cons r rs ih =>
    obtain ⟨here, defined₁, rest, hhere, hrest, rfl⟩ := ofRegisters_cons_ok h
    obtain ⟨hwritten, hext, hnow⟩ := macros_ofRegister hhere hw
    obtain ⟨hwritten', hext', hlater⟩ := ih hrest hwritten
    rw [Part.fieldMacros_append, ← List.append_assoc]
    exact ⟨hwritten', hext.trans hext', List.forall_mem_cons.2 ⟨hnow.mono hext', hlater⟩⟩

theorem macros_ofPeripheral (h : ofPeripheral s p defined = .ok (new, defined'))
    (hw : MacrosWritten defined out) :
    MacrosWritten defined' (out ++ Part.fieldMacros new) ∧ Extends defined defined' ∧
      ∀ r ∈ Element.registersAll p.registers, HasMacros s p defined' r := by
  obtain ⟨first, body, last, hbody, rfl, -⟩ := ofPeripheral_ok h
  obtain ⟨hwritten, hext, hall⟩ := macros_ofRegisters hbody hw
  refine ⟨?_, hext, fun r hr => hall r ((Element.registersAll_sortAll _).mem_iff.2 hr)⟩
  rw [Part.fieldMacros_plain, Part.fieldMacros_append, Part.fieldMacros_plain,
    Part.fieldMacros_nil, List.append_nil]
  exact hwritten

end FieldMacro

namespace Header

open FieldMacro (HasMacros MacrosWritten nameOf isDescribed)

variable {s : Settings} {d : Device} {p source : Peripheral} {name : String} {w w' : Written}
  {ps : List Peripheral} {new : List Part} {out : List FieldMacro}

/-- What is true of the field macros between two steps of the run over the peripherals: those
written are the ones of the table, which has the fields of each peripheral that is described. -/
structure MacroState (s : Settings) (d : Device) (w : Written) (out : List FieldMacro) : Prop where
  written : MacrosWritten w.macros out
  described : ∀ source ∈ d.peripherals, source.name ∈ w.described →
    ∀ r ∈ Element.registersAll source.registers, HasMacros s source w.macros r

theorem macroState_init : MacroState s d {} [] :=
  ⟨definedBy_nil, fun _ _ h => by cases h⟩

theorem macros_typedef (h : typedef s d p source name w = .ok (new, w')) :
    Part.fieldMacros new = [] ∧ w'.macros = w.macros ∧ w'.described = w.described := by
  rcases typedef_ok h with ⟨-, rfl, rfl⟩ | ⟨-, ⟨first, members, last, -, rfl, -⟩, rfl⟩ <;>
    exact ⟨rfl, rfl, rfl⟩

theorem macros_fieldMacros (hnames : d.HasDistinctNames)
    (h : Header.fieldMacros s source w = .ok (new, w')) (hsource : source ∈ d.peripherals)
    (hw : MacroState s d w out) :
    MacroState s d w' (out ++ Part.fieldMacros new) ∧ w.described ⊆ w'.described ∧
      source.name ∈ w'.described := by
  rcases fieldMacros_ok h with ⟨hmem, rfl, rfl⟩ | ⟨-, macros, hmacros, rfl⟩
  · rw [Part.fieldMacros_nil, List.append_nil]
    exact ⟨hw, List.Subset.refl _, hmem⟩
  · obtain ⟨hwritten, hext, hall⟩ := FieldMacro.macros_ofPeripheral hmacros hw.written
    refine ⟨⟨hwritten, fun q hq hmem r hr => ?_⟩, List.subset_cons_self _ _, List.mem_cons_self⟩
    rcases List.mem_cons.1 hmem with hname | hmem
    · have : q = source := hnames.eq_of_name_eq hq hsource hname
      subst this
      exact hall r hr
    · exact (hw.described q hq hmem r hr).mono hext

theorem macros_peripheral (hnames : d.HasDistinctNames)
    (h : peripheral s d p w = .ok (new, w')) (hp : p ∈ d.peripherals)
    (hw : MacroState s d w out) :
    MacroState s d w' (out ++ Part.fieldMacros new) ∧ w.described ⊆ w'.described ∧
      ∃ source, d.resolve p = .ok source ∧ source.name ∈ w'.described := by
  obtain ⟨source, name, struct, wₛ, fields, hsource, -, hstruct, hfields, rfl⟩ := peripheral_ok h
  obtain ⟨-, hrest, -⟩ := definesNoName_registerMacros s p source
  obtain ⟨hnone, hmacros, hdescribed⟩ := macros_typedef hstruct
  have hwₛ : MacroState s d wₛ out := by
    refine ⟨?_, ?_⟩
    · rw [hmacros]
      exact hw.written
    · rw [hmacros, hdescribed]
      exact hw.described
  obtain ⟨hstate, hsubset, hmem⟩ :=
    macros_fieldMacros hnames hfields (d.mem_of_resolve hp hsource) hwₛ
  rw [hdescribed] at hsubset
  refine ⟨?_, hsubset, source, hsource, hmem⟩
  rw [Part.fieldMacros_plain, Part.fieldMacros_append, Part.fieldMacros_append, hnone, hrest,
    List.nil_append, List.append_nil]
  exact hstate

theorem macros_peripherals (hnames : d.HasDistinctNames)
    (h : peripherals s d ps w = .ok (new, w')) (hps : ∀ p ∈ ps, p ∈ d.peripherals)
    (hw : MacroState s d w out) :
    MacroState s d w' (out ++ Part.fieldMacros new) ∧ w.described ⊆ w'.described ∧
      ∀ p ∈ ps, ∃ source, d.resolve p = .ok source ∧ source.name ∈ w'.described := by
  induction ps generalizing w new out with
  | nil =>
    cases h
    rw [Part.fieldMacros_nil, List.append_nil]
    exact ⟨hw, List.Subset.refl _, fun p hp => by cases hp⟩
  | cons p ps ih =>
    obtain ⟨here, w₁, rest, hhere, hrest, rfl⟩ := peripherals_cons_ok h
    obtain ⟨hp, hps⟩ := List.forall_mem_cons.1 hps
    obtain ⟨hstate, hsubset, source, hsource, hmem⟩ := macros_peripheral hnames hhere hp hw
    obtain ⟨hstate', hsubset', hlater⟩ := ih hrest hps hstate
    rw [Part.fieldMacros_append, ← List.append_assoc]
    exact ⟨hstate', List.Subset.trans hsubset hsubset',
      List.forall_mem_cons.2 ⟨⟨source, hsource, hsubset' hmem⟩, hlater⟩⟩

end Header

end RegisterMap
