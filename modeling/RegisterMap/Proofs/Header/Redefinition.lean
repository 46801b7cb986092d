import Mathlib.Data.List.Permutation
import RegisterMap.Proofs.Header.FieldMacros

/-!
# Field macros that are wanted for different bits

Two fields that want one name for different bits cannot both have it. `FieldMacro.Reaches`,
`ReachesRegister` and `ReachesSource` say that the run over the header comes to a field, a register,
a peripheral without an error before it. Of two things that are reached one comes first, and what
it wanted is in the table when the run comes to the other.
-/

namespace RegisterMap

/-- Two elements of one list: one is before the other, or they are at the same place. -/
theorem split_cases {α : Type} {as as' bs bs' : List α} {x y : α}
    (h : as ++ x :: as' = bs ++ y :: bs') :
    x ∈ bs ∨ y ∈ as ∨ (as = bs ∧ x = y ∧ as' = bs') := by
  induction as generalizing bs with
  | nil =>
    cases bs with
    | nil =>
      rw [List.nil_append, List.nil_append, List.cons.injEq] at h
      exact .inr (.inr ⟨rfl, h⟩)
    | cons b bs =>
      rw [List.nil_append, List.cons_append, List.cons.injEq] at h
      exact .inl (h.1 ▸ List.mem_cons_self)
  | cons a as ih =>
    cases bs with
    | nil =>
      rw [List.nil_append, List.cons_append, List.cons.injEq] at h
      exact .inr (.inl (h.1 ▸ List.mem_cons_self))
    | cons b bs =>
      rw [List.cons_append, List.cons_append, List.cons.injEq] at h
      obtain ⟨rfl, h⟩ := h
      rcases ih h with hx | hy | ⟨rfl, hxy⟩
      · exact .inl (List.mem_cons_of_mem _ hx)
      · exact .inr (.inl (List.mem_cons_of_mem _ hy))
      · exact .inr (.inr ⟨rfl, hxy⟩)

namespace FieldMacro

variable {s : Settings} {p : Peripheral} {r r' : Register} {type : WordType} {f f' : Field}
  {defined defined₁ defined₂ : DefinedMacros} {fs gs : List Field} {rs ss : List Register}
  {new : List Part} {out : List FieldMacro} {c : Cause} {places : List Place}

/-! ## Coming to a field of a register -/

/-- From the names `defined` at a register, the run over its fields comes to the field with the
names `defined₁`. -/
def Reaches (s : Settings) (p : Peripheral) (r : Register) (defined : DefinedMacros) (f : Field)
    (defined₁ : DefinedMacros) : Prop :=
  isDescribed r = true ∧ ∃ fields type before after new, p.fieldsOf r = .ok fields ∧
    WordType.ofWidth r.width = .ok type ∧ inOrder fields = before ++ f :: after ∧
    ofFields s p r type defined before = .ok (new, defined₁)

theorem ofFields_append_error {e : Failure}
    (h : ofFields s p r type defined fs = .ok (new, defined₁))
    (hrest : ofFields s p r type defined₁ gs = .error e) :
    ofFields s p r type defined (fs ++ gs) = .error e := by
  induction fs generalizing defined new with
  | nil =>
    cases h
    exact hrest
  | cons f fs ih =>
    rw [List.cons_append, ofFields, claim]
    rcases ofFields_cons_ok h with ⟨hthere, hgo⟩ | ⟨hnone, m, rest, hm, hgo, -⟩
    · rw [hthere]
      simp only [if_pos, bind, Except.bind]
      exact ih hgo
    · rw [hnone]
      simp only [if_pos, bind, Except.bind]
      rw [hm]
      simp only
      rw [ih hgo]

/-- A field whose name stands for other bits when the run comes to it stops the run. -/
theorem ofRegister_error_of_reaches {bits : Nat × Nat} (h : Reaches s p r defined f defined₁)
    (hlookup : defined₁.lookup (nameOf s p r f) = some bits)
    (hne : bits ≠ (f.bitOffset, f.bitWidth)) :
    ofRegister s p defined r = .error ⟨[], .macroRedefined (nameOf s p r f)⟩ := by
  obtain ⟨hdescribed, fields, type, before, after, new, hfields, htype, horder, hrun⟩ := h
  have hstop : ofFields s p r type defined₁ (f :: after) =
      .error ⟨[], .macroRedefined (nameOf s p r f)⟩ := by
    rw [ofFields, claim, hlookup]
    simp only [if_neg hne]
    rfl
  have hall := ofFields_append_error hrun hstop
  rw [← horder] at hall
  have hsome : fields.isEmpty = false := by
    cases fields with
    | nil =>
      rw [inOrder, List.mergeSort_nil] at horder
      cases before <;> cases horder
    | cons => rfl
  rw [ofRegister, hdescribed]
  simp only [Bool.not_true, Bool.false_eq_true, if_false, bind, Except.bind]
  rw [hfields]
  simp only
  rw [hsome]
  simp only [Bool.false_eq_true, if_false]
  rw [htype]
  simp only
  rw [hall]

theorem Reaches.extends (h : Reaches s p r defined f defined₁) (hw : MacrosWritten defined out) :
    Extends defined defined₁ := by
  obtain ⟨-, _, _, _, _, _, -, -, -, hrun⟩ := h
  exact (macros_ofFields hrun hw).2.1

theorem Reaches.lookup_of_hasMacros (h : Reaches s p r defined f defined₁)
    (hr : HasMacros s p defined₂ r) :
    defined₂.lookup (nameOf s p r f) = some (f.bitOffset, f.bitWidth) := by
  obtain ⟨hdescribed, fields, type, before, after, new, hfields, -, horder, -⟩ := h
  obtain ⟨fields', hfields', hall⟩ := hr hdescribed
  rw [hfields] at hfields'
  cases hfields'
  refine hall f ((inOrder_perm fields).mem_iff.1 ?_)
  rw [horder]
  exact List.mem_append_right _ List.mem_cons_self

/-- Of two fields of one register one comes first, and its name is given away before the other. -/
theorem Reaches.cases (h : Reaches s p r defined f defined₁)
    (h' : Reaches s p r defined f' defined₂) (hw : MacrosWritten defined out) :
    defined₂.lookup (nameOf s p r f) = some (f.bitOffset, f.bitWidth) ∨
      defined₁.lookup (nameOf s p r f') = some (f'.bitOffset, f'.bitWidth) ∨ f = f' := by
  obtain ⟨-, fields, type, before, after, new, hfields, htype, horder, hrun⟩ := h
  obtain ⟨-, fields', type', before', after', new', hfields', htype', horder', hrun'⟩ := h'
  rw [hfields] at hfields'
  cases hfields'
  rw [horder] at horder'
  rcases split_cases horder' with hf | hf' | ⟨-, heq, -⟩
  · exact .inl ((macros_ofFields hrun' hw).2.2 f hf)
  · exact .inr (.inl ((macros_ofFields hrun hw).2.2 f' hf'))
  · exact .inr (.inr heq)

/-! ## Coming to a register of a peripheral -/

/-- From the names `defined` at a peripheral, the run over its registers comes to the register with
the names `defined₁`. -/
def ReachesRegister (s : Settings) (p : Peripheral) (defined : DefinedMacros) (r : Register)
    (defined₁ : DefinedMacros) : Prop :=
  ∃ before after new, Element.registersAll (Element.sortAll p.registers) = before ++ r :: after ∧
    ofRegisters s p defined before = .ok (new, defined₁)

theorem ofRegisters_append_error {e : Failure}
    (h : ofRegisters s p defined rs = .ok (new, defined₁))
    (hrest : ofRegisters s p defined₁ ss = .error e) :
    ofRegisters s p defined (rs ++ ss) = .error e := by
  induction rs generalizing defined new with
  | nil =>
    cases h
    exact hrest
  | cons r rs ih =>
    obtain ⟨here, defined', rest, hhere, hgo, -⟩ := ofRegisters_cons_ok h
    rw [List.cons_append, ofRegisters, hhere]
    simp only [within_ok, bind, Except.bind]
    rw [ih hgo]

theorem ReachesRegister.mem (h : ReachesRegister s p defined r defined₁) :
    r ∈ Element.registersAll p.registers := by
  obtain ⟨before, after, new, heq, -⟩ := h
  refine (Element.registersAll_sortAll p.registers).mem_iff.1 ?_
  rw [heq]
  exact List.mem_append_right _ List.mem_cons_self

theorem ReachesRegister.written (h : ReachesRegister s p defined r defined₁)
    (hw : MacrosWritten defined out) :
    (∃ out', MacrosWritten defined₁ out') ∧ Extends defined defined₁ := by
  obtain ⟨before, after, new, -, hrun⟩ := h
  obtain ⟨hwritten, hext, -⟩ := macros_ofRegisters hrun hw
  exact ⟨⟨_, hwritten⟩, hext⟩

/-- Of two registers of one peripheral one comes first, and has its macros before the other. -/
theorem ReachesRegister.cases (h : ReachesRegister s p defined r defined₁)
    (h' : ReachesRegister s p defined r' defined₂) (hw : MacrosWritten defined out) :
    HasMacros s p defined₂ r ∨ HasMacros s p defined₁ r' ∨ (r = r' ∧ defined₁ = defined₂) := by
  obtain ⟨before, after, new, heq, hrun⟩ := h
  obtain ⟨before', after', new', heq', hrun'⟩ := h'
  rw [heq] at heq'
  rcases split_cases heq' with hr | hr' | ⟨rfl, hreg, -⟩
  · exact .inl ((macros_ofRegisters hrun' hw).2.2 r hr)
  · exact .inr (.inl ((macros_ofRegisters hrun hw).2.2 r' hr'))
  · rw [hrun] at hrun'
    cases hrun'
    exact .inr (.inr ⟨hreg, rfl⟩)

/-- A register that fails when the run comes to it stops the run. -/
theorem ofPeripheral_error_of_reaches (h : ReachesRegister s p defined r defined₁)
    (hr : ofRegister s p defined₁ r = .error ⟨places, c⟩) :
    ∃ places', ofPeripheral s p defined = .error ⟨places', c⟩ := by
  obtain ⟨before, after, new, heq, hrun⟩ := h
  have hstop : ofRegisters s p defined₁ (r :: after) =
      .error ⟨.register s!"{p.name}.{r.name}" :: places, c⟩ := by
    rw [ofRegisters, hr]
    rfl
  have hall := ofRegisters_append_error hrun hstop
  rw [← heq] at hall
  rw [ofPeripheral, hall]
  exact ⟨_, rfl⟩

end FieldMacro

namespace Header

open FieldMacro

variable {s : Settings} {d : Device} {p source source' : Peripheral} {r r' : Register}
  {f f' : Field} {w w' : Written} {ps qs : List Peripheral} {new : List Part} {c : Cause}
  {places : List Place}

/-! ## Coming to a peripheral -/

/-- The run over the peripherals comes to the field macros of a peripheral's registers, with what
has been written by then. -/
def ReachesSource (s : Settings) (d : Device) (source : Peripheral) (w : Written) : Prop :=
  ∃ before p after here w₀ name struct, included s d = before ++ p :: after ∧
    peripherals s d before {} = .ok (here, w₀) ∧ d.resolve p = .ok source ∧
    d.structName p s.commonNames = .ok name ∧ typedef s d p source name w₀ = .ok (struct, w) ∧
    source.name ∉ w.described

theorem peripherals_append_error {e : Failure} (h : peripherals s d ps w = .ok (new, w'))
    (hrest : peripherals s d qs w' = .error e) : peripherals s d (ps ++ qs) w = .error e := by
  induction ps generalizing w new with
  | nil =>
    cases h
    exact hrest
  | cons p ps ih =>
    obtain ⟨here, w₁, rest, hhere, hgo, -⟩ := peripherals_cons_ok h
    rw [List.cons_append, peripherals_cons_of_ok hhere, ih hgo]
    rfl

theorem ReachesSource.mem (h : ReachesSource s d source w) : source ∈ d.peripherals := by
  obtain ⟨before, p, after, -, -, -, -, heq, -, hsource, -⟩ := h
  have hp : p ∈ included s d := by
    rw [heq]
    exact List.mem_append_right _ List.mem_cons_self
  exact d.mem_of_resolve (mem_included.1 hp).1 hsource

/-- What the run knows about the peripherals before the one that it comes to. -/
private theorem ReachesSource.run_before (hnames : d.HasDistinctNames)
    {before after : List Peripheral} {here struct : List Part} {w₀ : Written} {name : String}
    (heq : included s d = before ++ p :: after)
    (hrun : peripherals s d before {} = .ok (here, w₀))
    (hstruct : typedef s d p source name w₀ = .ok (struct, w)) :
    MacroState s d w (Part.fieldMacros here) ∧
      ∀ q ∈ before, ∃ source, d.resolve q = .ok source ∧ source.name ∈ w.described := by
  have hbefore : ∀ q ∈ before, q ∈ d.peripherals := by
    intro q hq
    refine (mem_included (s := s).1 ?_).1
    rw [heq]
    exact List.mem_append_left _ hq
  obtain ⟨hstate, -, hall⟩ := macros_peripherals hnames hrun hbefore macroState_init
  obtain ⟨-, hmacros, hdescribed⟩ := macros_typedef hstruct
  rw [List.nil_append] at hstate
  refine ⟨⟨?_, ?_⟩, ?_⟩
  · rw [hmacros]
    exact hstate.written
  · rw [hmacros, hdescribed]
    exact hstate.described
  · rw [hdescribed]
    exact hall

theorem ReachesSource.exists_state (hnames : d.HasDistinctNames) (h : ReachesSource s d source w) :
    ∃ out, MacroState s d w out := by
  obtain ⟨before, p, after, here, w₀, name, struct, heq, hrun, -, -, hstruct, -⟩ := h
  exact ⟨_, (run_before hnames heq hrun hstruct).1⟩

/-- Of two peripherals one comes first, and is described before the other. -/
theorem ReachesSource.cases (hnames : d.HasDistinctNames) (h : ReachesSource s d source w)
    (h' : ReachesSource s d source' w') :
    source.name ∈ w'.described ∨ source'.name ∈ w.described ∨ (source = source' ∧ w = w') := by
  obtain ⟨before, p, after, here, w₀, name, struct, heq, hrun, hsource, hname, hstruct, -⟩ := h
  obtain ⟨before', p', after', here', w₀', name', struct', heq', hrun', hsource', hname', hstruct',
    -⟩ := h'
  rcases split_cases (heq.symm.trans heq') with hp | hp' | ⟨rfl, rfl, -⟩
  · obtain ⟨t, ht, hmem⟩ := (run_before hnames heq' hrun' hstruct').2 p hp
    rw [hsource] at ht
    cases ht
    exact .inl hmem
  · obtain ⟨t, ht, hmem⟩ := (run_before hnames heq hrun hstruct).2 p' hp'
    rw [hsource'] at ht
    cases ht
    exact .inr (.inl hmem)
  · rw [hrun] at hrun'
    cases hrun'
    rw [hsource] at hsource'
    cases hsource'
    rw [hname] at hname'
    cases hname'
    rw [hstruct] at hstruct'
    cases hstruct'
    exact .inr (.inr ⟨rfl, rfl⟩)

/-- A peripheral whose field macros fail when the run comes to them stops the run. -/
theorem render_error_of_reaches (h : ReachesSource s d source w)
    (hmacros : FieldMacro.ofPeripheral s source w.macros = .error ⟨places, c⟩) :
    ∃ places', render s d = .error ⟨places', c⟩ := by
  obtain ⟨before, p, after, here, w₀, name, struct, heq, hrun, hsource, hname, hstruct, hnew⟩ := h
  have hfields : Header.fieldMacros s source w = .error ⟨places, c⟩ := by
    rw [Header.fieldMacros, if_neg (by rwa [List.contains_iff_mem]), hmacros]
    rfl
  have hstop : peripherals s d (p :: after) w₀ = .error ⟨.writing p.name :: places, c⟩ := by
    rw [peripherals, peripheral, hsource]
    simp only [bind, Except.bind]
    rw [hname]
    simp only
    rw [hstruct]
    simp only
    rw [hfields]
    rfl
  have hall := peripherals_append_error hrun hstop
  rw [← heq] at hall
  exact ⟨_, render_eq_error_of_run hall⟩

/-! ## Two fields that want one name -/

/-- The run over the header comes to the field of a register of a peripheral: no step before it
fails. The names given away by then are `defined`. -/
def ReachesField (s : Settings) (d : Device) (source : Peripheral) (r : Register) (f : Field)
    (defined : DefinedMacros) : Prop :=
  ∃ w defined₁, ReachesSource s d source w ∧ ReachesRegister s source w.macros r defined₁ ∧
    Reaches s source r defined₁ f defined

/-- A field whose name stands for other bits when the run comes to it makes the header fail. -/
theorem ReachesField.render_error {defined : DefinedMacros} {bits : Nat × Nat}
    (h : ReachesField s d source r f defined)
    (hlookup : defined.lookup (nameOf s source r f) = some bits)
    (hne : bits ≠ (f.bitOffset, f.bitWidth)) :
    ∃ places, render s d = .error ⟨places, .macroRedefined (nameOf s source r f)⟩ := by
  obtain ⟨w, defined₁, hsource, hregister, hfield⟩ := h
  obtain ⟨places, hperipheral⟩ :=
    ofPeripheral_error_of_reaches hregister (ofRegister_error_of_reaches hfield hlookup hne)
  exact render_error_of_reaches hsource hperipheral

/-- Of two fields that the run comes to one comes first, and its name is given away before the
other. -/
theorem ReachesField.cases {defined defined' : DefinedMacros} (hnames : d.HasDistinctNames)
    (h : ReachesField s d source r f defined) (h' : ReachesField s d source' r' f' defined') :
    defined'.lookup (nameOf s source r f) = some (f.bitOffset, f.bitWidth) ∨
      defined.lookup (nameOf s source' r' f') = some (f'.bitOffset, f'.bitWidth) ∨
      (source = source' ∧ r = r' ∧ f = f') := by
  obtain ⟨w, defined₁, hsource, hregister, hfield⟩ := h
  obtain ⟨w', defined₁', hsource', hregister', hfield'⟩ := h'
  obtain ⟨out, hstate⟩ := hsource.exists_state hnames
  obtain ⟨out', hstate'⟩ := hsource'.exists_state hnames
  obtain ⟨⟨_, hwritten⟩, hext⟩ := hregister.written hstate.written
  obtain ⟨⟨_, hwritten'⟩, hext'⟩ := hregister'.written hstate'.written
  rcases hsource.cases hnames hsource' with hmem | hmem | ⟨rfl, rfl⟩
  · have hr := hstate'.described source hsource.mem hmem r hregister.mem
    exact .inl ((hext'.trans (hfield'.extends hwritten')) _ _ (hfield.lookup_of_hasMacros hr))
  · have hr' := hstate.described source' hsource'.mem hmem r' hregister'.mem
    exact .inr (.inl ((hext.trans (hfield.extends hwritten)) _ _
      (hfield'.lookup_of_hasMacros hr')))
  · rcases hregister.cases hregister' hstate.written with hr | hr' | ⟨rfl, rfl⟩
    · exact .inl (hfield'.extends hwritten' _ _ (hfield.lookup_of_hasMacros hr))
    · exact .inr (.inl (hfield.extends hwritten _ _ (hfield'.lookup_of_hasMacros hr')))
    · rcases hfield.cases hfield' hwritten with hf | hf' | rfl
      · exact .inl hf
      · exact .inr (.inl hf')
      · exact .inr (.inr ⟨rfl, rfl, rfl⟩)

/-- A field that a header describes: one of a register that has macros, in the source of a
peripheral that is not left out. -/
def Describes (s : Settings) (d : Device) (source : Peripheral) (r : Register) (f : Field) : Prop :=
  (∃ p ∈ d.peripherals, s.excludes p.name = false ∧ d.resolve p = .ok source) ∧
    r ∈ Element.registersAll source.registers ∧ isDescribed r = true ∧
    ∃ fields, source.fieldsOf r = .ok fields ∧ f ∈ fields

theorem macro_of_render {parts : List Part} (hnames : d.HasDistinctNames)
    (hparts : Header.parts s d = .ok parts) (hf : Describes s d source r f) :
    ∃ m, (Part.fieldMacros parts).filter (·.name == nameOf s source r f) = [m] ∧
      FieldMacro.Fits m (f.bitOffset, f.bitWidth) := by
  obtain ⟨described, w, names, hrun, -, -, -, hmacros, -⟩ := parts_ok hparts
  obtain ⟨hstate, -, hall⟩ := macros_peripherals hnames hrun
    (fun p hp => (mem_included.1 hp).1) macroState_init
  obtain ⟨⟨p, hp, hkept, hsource⟩, hr, hdescribed, fields, hfields, hf⟩ := hf
  obtain ⟨t, ht, hmem⟩ := hall p (mem_included.2 ⟨hp, hkept⟩)
  rw [hsource] at ht
  cases ht
  obtain ⟨fields', hfields', hlookup⟩ :=
    hstate.described source (d.mem_of_resolve hp hsource) hmem r hr hdescribed
  rw [hfields] at hfields'
  cases hfields'
  rw [hmacros]
  exact hstate.written.exists_of_lookup (hlookup f hf)

/-- Of two fields that want one name for different bits, a header cannot have both. -/
theorem render_error_of_describes (hnames : d.HasDistinctNames) (hf : Describes s d source r f)
    (hf' : Describes s d source' r' f') (hname : nameOf s source r f = nameOf s source' r' f')
    (hbits : (f.bitOffset, f.bitWidth) ≠ (f'.bitOffset, f'.bitWidth)) :
    ∃ e, render s d = .error e := by
  -- the one definition of the name would have the bits of both
  cases hrender : render s d with
  | error e => exact ⟨e, rfl⟩
  | ok text =>
    obtain ⟨parts, hparts, -⟩ := bind_eq_ok.1 hrender
    obtain ⟨m, hm, hfits⟩ := macro_of_render hnames hparts hf
    obtain ⟨m', hm', hfits'⟩ := macro_of_render hnames hparts hf'
    rw [← hname, hm] at hm'
    cases hm'
    exact absurd (hfits.bits_eq.symm.trans hfits'.bits_eq) hbits

/-- Where the run comes to both of them, it fails because the name is defined again. -/
theorem ReachesField.redefined {defined defined' : DefinedMacros} (hnames : d.HasDistinctNames)
    (h : ReachesField s d source r f defined) (h' : ReachesField s d source' r' f' defined')
    (hname : nameOf s source r f = nameOf s source' r' f')
    (hbits : (f.bitOffset, f.bitWidth) ≠ (f'.bitOffset, f'.bitWidth)) :
    ∃ places, render s d = .error ⟨places, .macroRedefined (nameOf s source r f)⟩ := by
  rcases h.cases hnames h' with hfirst | hfirst | ⟨-, -, rfl⟩
  · rw [hname] at hfirst ⊢
    exact h'.render_error hfirst hbits
  · rw [← hname] at hfirst
    exact h.render_error hfirst hbits.symm
  · exact absurd rfl hbits

end Header

end RegisterMap
