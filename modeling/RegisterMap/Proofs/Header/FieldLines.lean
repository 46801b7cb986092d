import RegisterMap.Proofs.Header.AccessMacros
import RegisterMap.Proofs.Header.Redefinition

/-!
# Lines of field macros

The lines of a header define the mask and the position of each field that it describes, next to
each other (`Header.render_fieldMacros`). Each field macro is traced to such a field, from the run
over fields (`FieldMacro.exists_isFor_of_ofFields`) to that over peripherals
(`Header.traced_peripherals`). The table of the run keeps names without suffixes apart, so that no
two masks and no two positions have one name; other macros are not in the table, and the macro of
a mask may be one of them as well (`Header.not_once_enabling`).
-/

namespace RegisterMap

namespace FieldMacro

variable {s : Settings} {p : Peripheral} {r : Register} {type : WordType} {f : Field}
  {defined defined' : DefinedMacros} {fs : List Field} {rs : List Register} {new : List Part}
  {m : FieldMacro}

/-! ## Where field macros come from -/

/-- The macro has the name and the bits of a field of the register. -/
structure IsFor (s : Settings) (p : Peripheral) (r : Register) (f : Field) (m : FieldMacro) :
    Prop where
  name_eq : m.name = nameOf s p r f
  offset_eq : m.offset = f.bitOffset
  width_eq : m.width = f.bitWidth

theorem isFor_of_ofField (h : ofField (nameOf s p r f) p r type f = .ok m) : IsFor s p r f m := by
  obtain ⟨hname, hfits⟩ := ofField_ok h
  exact ⟨hname, (Prod.mk.inj hfits.bits_eq).1, (Prod.mk.inj hfits.bits_eq).2⟩

theorem exists_isFor_of_ofFields (h : ofFields s p r type defined fs = .ok (new, defined'))
    (hm : m ∈ Part.fieldMacros new) : ∃ f ∈ fs, IsFor s p r f m := by
  induction fs generalizing defined new with
  | nil =>
    cases h
    cases hm
  | cons f fs ih =>
    rcases ofFields_cons_ok h with ⟨-, hrest⟩ | ⟨-, m', rest, hm', hrest, rfl⟩
    · obtain ⟨g, hg, hfor⟩ := ih hrest hm
      exact ⟨g, List.mem_cons_of_mem _ hg, hfor⟩
    · rcases List.mem_cons.1 hm with rfl | hm
      · exact ⟨f, List.mem_cons_self, isFor_of_ofField hm'⟩
      · obtain ⟨g, hg, hfor⟩ := ih hrest hm
        exact ⟨g, List.mem_cons_of_mem _ hg, hfor⟩

theorem exists_isFor_of_ofRegister (h : ofRegister s p defined r = .ok (new, defined'))
    (hm : m ∈ Part.fieldMacros new) : isDescribed r = true ∧
      ∃ fields, p.fieldsOf r = .ok fields ∧ ∃ f ∈ fields, IsFor s p r f m := by
  rcases ofRegister_ok h with ⟨-, rfl, -⟩ |
    ⟨hdescribed, fields, hfields, ⟨-, rfl, -⟩ | ⟨type, rest, -, hrest, rfl⟩⟩
  · cases hm
  · cases hm
  · obtain ⟨f, hf, hfor⟩ := exists_isFor_of_ofFields hrest hm
    exact ⟨hdescribed, fields, hfields, f, (inOrder_perm fields).mem_iff.1 hf, hfor⟩

theorem exists_isFor_of_ofRegisters (h : ofRegisters s p defined rs = .ok (new, defined'))
    (hm : m ∈ Part.fieldMacros new) : ∃ r ∈ rs, isDescribed r = true ∧
      ∃ fields, p.fieldsOf r = .ok fields ∧ ∃ f ∈ fields, IsFor s p r f m := by
  induction rs generalizing defined new with
  | nil =>
    cases h
    cases hm
  | cons r rs ih =>
    obtain ⟨here, defined₁, rest, hhere, hrest, rfl⟩ := ofRegisters_cons_ok h
    rw [Part.fieldMacros_append] at hm
    rcases List.mem_append.1 hm with hm | hm
    · exact ⟨r, List.mem_cons_self, exists_isFor_of_ofRegister hhere hm⟩
    · obtain ⟨t, ht, hfor⟩ := ih hrest hm
      exact ⟨t, List.mem_cons_of_mem _ ht, hfor⟩

theorem exists_isFor_of_ofPeripheral (h : ofPeripheral s p defined = .ok (new, defined'))
    (hm : m ∈ Part.fieldMacros new) : ∃ r ∈ Element.registersAll p.registers,
      isDescribed r = true ∧
      ∃ fields, p.fieldsOf r = .ok fields ∧ ∃ f ∈ fields, IsFor s p r f m := by
  obtain ⟨first, body, last, hbody, rfl, -⟩ := ofPeripheral_ok h
  rw [Part.fieldMacros_plain, Part.fieldMacros_append, Part.fieldMacros_plain,
    Part.fieldMacros_nil, List.append_nil] at hm
  obtain ⟨r, hr, hfor⟩ := exists_isFor_of_ofRegisters hbody hm
  exact ⟨r, (Element.registersAll_sortAll _).mem_iff.1 hr, hfor⟩

end FieldMacro

namespace Header

open CText FieldMacro RegisterMap.Part

variable {s : Settings} {d : Device} {p source source' : Peripheral} {w w' : Written}
  {ps : List Peripheral} {new parts : List Part} {m : FieldMacro} {r r' : Register} {f f' : Field}

/-- The field macros are for fields that the header describes. -/
def Traced (s : Settings) (d : Device) (new : List Part) : Prop :=
  ∀ m ∈ Part.fieldMacros new, ∃ source r f, Describes s d source r f ∧ IsFor s source r f m

theorem traced_fieldMacros (h : Header.fieldMacros s source w = .ok (new, w'))
    (hp : p ∈ included s d) (hsource : d.resolve p = .ok source) : Traced s d new := by
  rcases fieldMacros_ok h with ⟨-, rfl, -⟩ | ⟨-, macros, hmacros, -⟩
  · exact nofun
  · intro m hm
    obtain ⟨r, hr, hdescribed, fields, hfields, f, hf, hfor⟩ :=
      exists_isFor_of_ofPeripheral hmacros hm
    obtain ⟨hp, hkept⟩ := mem_included.1 hp
    exact ⟨source, r, f, ⟨⟨p, hp, hkept, hsource⟩, hr, hdescribed, fields, hfields, hf⟩, hfor⟩

theorem traced_peripheral (h : peripheral s d p w = .ok (new, w')) (hp : p ∈ included s d) :
    Traced s d new := by
  obtain ⟨source, name, struct, wₛ, fields, hsource, -, hstruct, hfields, rfl⟩ := peripheral_ok h
  obtain ⟨-, hrest, -⟩ := definesNoName_registerMacros s p source
  intro m hm
  rw [fieldMacros_plain, fieldMacros_append, fieldMacros_append, (macros_typedef hstruct).1, hrest,
    List.nil_append, List.append_nil] at hm
  exact traced_fieldMacros hfields hp hsource m hm

theorem traced_peripherals (h : peripherals s d ps w = .ok (new, w'))
    (hps : ∀ p ∈ ps, p ∈ included s d) : Traced s d new := by
  induction ps generalizing w new with
  | nil =>
    cases h
    exact nofun
  | cons p ps ih =>
    obtain ⟨here, w₁, rest, hhere, hrest, rfl⟩ := peripherals_cons_ok h
    obtain ⟨hp, hps⟩ := List.forall_mem_cons.1 hps
    rw [Traced, fieldMacros_append]
    exact List.forall_mem_append.2 ⟨traced_peripheral hhere hp, ih hrest hps⟩

theorem traced_parts (h : Header.parts s d = .ok parts) : Traced s d parts := by
  obtain ⟨described, w, names, hrun, -, -, -, hmacros, -⟩ := parts_ok h
  rw [Traced, hmacros]
  exact traced_peripherals hrun fun _ hp => hp

/-! ## Masks and positions -/

/-- What stands behind the name of a field in the name of its mask. -/
def maskSuffix (s : Settings) : String := if s.shiftMaskNames then "_MASK" else "_Msk"

/-- What stands behind the name of a field in the name of its position. -/
def positionSuffix (s : Settings) : String := if s.shiftMaskNames then "_SHIFT" else "_Pos"

/-- The value of a mask, as a number or as a shift of the low bits. -/
def maskText (s : Settings) (name : String) (offset width : Nat) : String :=
  if s.numericMasks then s!"0x{Text.hex (Bits.runMask offset width)}UL"
  else s!"(0x{Text.hex (Bits.lowMask width) 2}UL << {name ++ positionSuffix s})"

/-- The line defines the name as the value, and has a comment behind it. -/
def IsDefinition (name value line : String) : Prop :=
  let definition := s!"#define {Text.padEnd 40 name} {value}"
  ∃ comment : String, line = s!"{Text.padEnd 100 definition} /*!< {comment}*/"

/-- The lines define the mask of a field and behind it the position. -/
def HasBits (s : Settings) (name : String) (offset width : Nat) (lines : List String) : Prop :=
  ∃ before mask position after, lines = before ++ mask :: position :: after ∧
    IsDefinition (name ++ maskSuffix s) (maskText s name offset width) mask ∧
    IsDefinition (name ++ positionSuffix s) (toString offset) position

theorem lines_fieldMacro (s : Settings) (m : FieldMacro) :
    ∃ mask position rest, (fieldMacro m).lines s = mask :: position :: rest ∧
      IsDefinition (m.name ++ maskSuffix s) (maskText s m.name m.offset m.width) mask ∧
      IsDefinition (m.name ++ positionSuffix s) (toString m.offset) position :=
  ⟨_, _, _, rfl, ⟨_, rfl⟩, ⟨_, rfl⟩⟩

theorem hasBits_of_mem (hm : m ∈ Part.fieldMacros parts) :
    HasBits s m.name m.offset m.width (parts.flatMap (Part.lines s)) := by
  obtain ⟨part, hpart, heq⟩ := List.mem_filterMap.1 hm
  have hfield : part = .fieldMacro m := by
    cases part <;> cases heq
    rfl
  obtain ⟨before, after, rfl⟩ := List.append_of_mem (hfield ▸ hpart)
  obtain ⟨mask, position, rest, hlines, hmask, hposition⟩ := lines_fieldMacro s m
  refine ⟨before.flatMap (Part.lines s), mask, position, rest ++ after.flatMap (Part.lines s), ?_,
    hmask, hposition⟩
  rw [List.flatMap_append, List.flatMap_cons, hlines]
  rfl

theorem isWord_append {t u : String} (ht : IsWord t) (hu : IsWord u) : IsWord (t ++ u) := by
  unfold IsWord
  rw [String.toList_append, List.all_append, Bool.and_eq_true]
  exact ⟨ht, hu⟩

/-- Of the masks and positions of fields whose names are words, a name has one mask and one position
for each macro of this name. -/
theorem count_fieldDefinitions {ms : List FieldMacro} (hwords : ∀ m ∈ ms, IsWord m.name)
    {suffix : String} (hsuffix : suffix ∈ [maskSuffix s, positionSuffix s]) (name : String) :
    (fieldDefinitions s ms).count (.define (name ++ suffix)) =
      (ms.filter (·.name == name)).length := by
  have hmask (m : FieldMacro) : m.maskName s = m.name ++ maskSuffix s := rfl
  have hposition (m : FieldMacro) : m.positionName s = m.name ++ positionSuffix s := rfl
  have hwordy : IsWord (maskSuffix s) ∧ IsWord (positionSuffix s) := by
    unfold maskSuffix positionSuffix
    cases s.shiftMaskNames <;> decide
  -- a name ends in at most one of the two suffixes
  have hapart (t u : String) : t ++ maskSuffix s ≠ u ++ positionSuffix s := by
    intro h
    have hlast := congrArg (fun t : String => t.toList.getLast?) h
    revert hlast
    unfold maskSuffix positionSuffix
    cases s.shiftMaskNames <;> simp
  have hsame {t u v : String} : t ++ v = u ++ v ↔ t = u := by
    rw [← String.toList_inj, ← String.toList_inj]
    simp
  induction ms with
  | nil => rfl
  | cons m ms ih =>
    obtain ⟨hm, hms⟩ := List.forall_mem_cons.1 hwords
    have hrest := ih hms
    rw [fieldDefinitions] at hrest ⊢
    rw [List.flatMap_cons, List.count_append, hrest, hmask, hposition,
      wordOf_eq_self (isWord_append hm hwordy.1), wordOf_eq_self (isWord_append hm hwordy.2)]
    rcases List.mem_pair.1 hsuffix with rfl | rfl
    · by_cases hname : m.name = name <;>
        simp [hsame, hname, (hapart _ _).symm, Nat.add_comm]
    · by_cases hname : m.name = name <;>
        simp [hsame, hname, hapart, Nat.add_comm]

/-- The names of the fields that a header describes are words, as names of macros in C are. -/
def NamesWords (s : Settings) (d : Device) : Prop :=
  ∀ source r f, Describes s d source r f → IsWord (nameOf s source r f)

/-- The mask and the position of a described field are defined once, and as often again as other
macros have the name. -/
theorem count_of_describes (hnames : d.HasDistinctNames) (hparts : Header.parts s d = .ok parts)
    (hwords : NamesWords s d) (hf : Describes s d source r f) {suffix : String}
    (hsuffix : suffix ∈ [maskSuffix s, positionSuffix s]) :
    (definitions (parts.flatMap (Part.lines s))).count (.define (nameOf s source r f ++ suffix)) =
      1 + ((otherMacros s d parts).map wordOf).count (nameOf s source r f ++ suffix) := by
  have hfields : ∀ m ∈ Part.fieldMacros parts, IsWord m.name := by
    intro m hm
    obtain ⟨source', r', f', hdescribes, hfor⟩ := traced_parts hparts m hm
    rw [hfor.name_eq]
    exact hwords source' r' f' hdescribes
  obtain ⟨m, hm, -⟩ := macro_of_render hnames hparts hf
  have hstructs (x : String) : ((typedefs parts).map fun t =>
      Definition.struct (typedefLine t.1)).count (.define x) = 0 := by
    refine List.count_eq_zero.2 fun hmem => ?_
    obtain ⟨t, -, ht⟩ := List.mem_map.1 hmem
    cases ht
  have hothers (x : String) : ((otherMacros s d parts).map fun name =>
      Definition.define (wordOf name)).count (.define x) =
        ((otherMacros s d parts).map wordOf).count x := by
    have hinj : Function.Injective Definition.define := fun a b h => by
      cases h
      rfl
    rw [← List.count_map_of_injective _ _ hinj, List.map_map]
    rfl
  rw [count_definitions_parts hparts, hstructs, hothers, count_fieldDefinitions hfields hsuffix,
    hm, List.length_singleton, Nat.zero_add]

/-- **Field macros.** A rendered header has, for each register with macros in the source of each
peripheral that is not left out, one field macro of the name of each of its fields, with the field's
position and width: its lines define the mask and the position next to each other, and, where the
names of fields are words, these two macros nowhere else unless one of the other macros has such a
name. Two fields with the same name and other bits make the header fail, and where the run comes to
both of them it fails because the name is defined again. -/
theorem render_fieldMacros (hnames : d.HasDistinctNames) :
    (∀ text, render s d = .ok text →
      ∃ parts lines, Header.parts s d = .ok parts ∧ text = Part.text s parts ∧
        Header.lines s d = .ok lines ∧ text = Text.ended lines ∧
        ∀ p ∈ d.peripherals, s.excludes p.name = false →
          ∃ source, d.resolve p = .ok source ∧
            ∀ r ∈ Element.registersAll source.registers, isDescribed r = true →
              ∃ fields, source.fieldsOf r = .ok fields ∧ ∀ f ∈ fields,
                (∃ m, (Part.fieldMacros parts).filter (·.name == nameOf s source r f) = [m] ∧
                  m.offset = f.bitOffset ∧ m.width = f.bitWidth ∧
                  (m.valueType.isSome = true ↔ 1 < f.bitWidth)) ∧
                HasBits s (nameOf s source r f) f.bitOffset f.bitWidth lines ∧
                (NamesWords s d → ∀ suffix ∈ [maskSuffix s, positionSuffix s],
                  (definitions lines).count (.define (nameOf s source r f ++ suffix)) =
                    1 + ((otherMacros s d parts).map wordOf).count
                      (nameOf s source r f ++ suffix))) ∧
    ∀ source r f source' r' f', Describes s d source r f → Describes s d source' r' f' →
      nameOf s source r f = nameOf s source' r' f' →
      (f.bitOffset, f.bitWidth) ≠ (f'.bitOffset, f'.bitWidth) →
        (∃ e, render s d = .error e) ∧
        ∀ defined defined', ReachesField s d source r f defined →
          ReachesField s d source' r' f' defined' →
          ∃ places, render s d = .error ⟨places, .macroRedefined (nameOf s source r f)⟩ := by
  refine ⟨fun text hrender => ?_, fun source r f source' r' f' hf hf' hname hbits =>
    ⟨render_error_of_describes hnames hf hf' hname hbits, fun defined defined' hreach hreach' =>
      hreach.redefined hnames hreach' hname hbits⟩⟩
  obtain ⟨parts, hparts, htext⟩ := bind_eq_ok.1 hrender
  cases htext
  refine ⟨parts, parts.flatMap (Part.lines s), hparts, rfl, bind_eq_ok.2 ⟨parts, hparts, rfl⟩, rfl,
    fun p hp hkept => ?_⟩
  obtain ⟨described, w, names, hrun, -⟩ := parts_ok hparts
  obtain ⟨hstate, -, hall⟩ := macros_peripherals hnames hrun
    (fun p hp => (mem_included.1 hp).1) macroState_init
  obtain ⟨source, hsource, hmem⟩ := hall p (mem_included.2 ⟨hp, hkept⟩)
  refine ⟨source, hsource, fun r hr hdescribed => ?_⟩
  obtain ⟨fields, hfields, -⟩ :=
    hstate.described source (d.mem_of_resolve hp hsource) hmem r hr hdescribed
  refine ⟨fields, hfields, fun f hf => ?_⟩
  have hdescribes : Describes s d source r f :=
    ⟨⟨p, hp, hkept, hsource⟩, hr, hdescribed, fields, hfields, hf⟩
  obtain ⟨m, hm, hfits⟩ := macro_of_render hnames hparts hdescribes
  obtain ⟨hoffset, hwidth⟩ := Prod.mk.inj hfits.bits_eq
  have hbits := hasBits_of_mem (s := s) (of_filter_eq_singleton hm).1
  have hname : m.name = nameOf s source r f := eq_of_beq (of_filter_eq_singleton hm).2
  rw [hname, hoffset, hwidth] at hbits
  exact ⟨⟨m, hm, hoffset, hwidth, hwidth ▸ hfits.places_iff⟩, hbits,
    fun hwords suffix hsuffix => count_of_describes hnames hparts hwords hdescribes hsuffix⟩

section Example

private def mux (width : Nat) : Field := { name := "MUX", bitOffset := 8, bitWidth := width }

private def pcr (width : Nat) : Register :=
  { Register.plain "PCR" 0 32 with fields := [mux width] }

private def port (name : String) (width : Nat) : Peripheral :=
  { name, baseAddress := 0x1000, groupName := some "PORT", headerStructName := some name,
    registers := [.register (pcr width)] }

/-- Two ports whose fields have one name in common, in fields of so many bits. -/
private def ports (a b : Nat) : Device where
  name := "K10"
  peripherals := [port "PORTA" a, port "PORTB" b]

private def everything : Settings := { exclusions := some [] }

private theorem nameOf_ports (a b : Nat) :
    nameOf everything (port "PORTA" a) (pcr a) (mux a) = "PORT_PCR_MUX" ∧
      nameOf everything (port "PORTB" b) (pcr b) (mux b) = "PORT_PCR_MUX" := by
  constructor <;> cbv

private theorem hasDistinctNames_ports (a b : Nat) : (ports a b).HasDistinctNames :=
  List.nodup_iff_pairwise_ne.2 (by simp [ports, port])

private theorem included_ports (a b : Nat) :
    included everything (ports a b) = [port "PORTA" a, port "PORTB" b] :=
  List.mergeSort_of_pairwise (by simp [ports, port, everything, Settings.excludes])

private theorem exists_typedef_port (d : Device) (name : String) (width : Nat) (w : Written)
    (hnone : w.typedefs.lookup name = none) :
    ∃ new, typedef everything d (port name width) (port name width) name w =
      .ok (new, { w with typedefs := (name, name) :: w.typedefs }) := by
  have hlayout : layout (port name width).registers = .ok [.register (pcr width) 0] := by cbv
  refine exists_typedef_of_new "PORT"
    [.word "__IO" .word32 "PCR" none (some ⟨0, ""⟩)] hnone rfl ?_
  have hname : CText.identifier "PCR" = "PCR" := by decide +kernel
  rw [structMembers, hlayout]
  simp [Member.ofLayout, Member.ofDecls, Member.ofDecl, Member.ofRegister, pcr, Register.plain,
    hname, WordType.ofWidth, Access.qualifier, bind, Except.bind, pure, Except.pure]

private theorem reaches_port (name : String) (width : Nat) (defined : DefinedMacros) :
    ReachesRegister everything (port name width) defined (pcr width) defined ∧
      Reaches everything (port name width) (pcr width) defined (mux width) defined := by
  refine ⟨⟨[], [], [], by cbv, rfl⟩, rfl, [mux width], .word32, [], [], [], rfl, rfl, ?_, rfl⟩
  exact List.mergeSort_singleton _

private theorem describes_ports {a b width : Nat} {p : Peripheral}
    (hp : p ∈ (ports a b).peripherals) (hport : p.registers = [.register (pcr width)])
    (hown : p.derivedFrom = none) : Describes everything (ports a b) p (pcr width) (mux width) := by
  refine ⟨⟨p, hp, rfl, ?_⟩, ?_, rfl, [mux width], rfl, List.mem_singleton_self _⟩
  · exact Device.resolve_of_not_isDerived _ (by rw [Peripheral.isDerived, hown]; rfl)
  · rw [hport]
    exact List.mem_singleton_self _

private theorem exists_peripheral_port (d : Device) (name : String) (width : Nat) {w : Written}
    {macros : DefinedMacros} (htypedef : w.typedefs.lookup name = none)
    (hnew : w.described.contains name = false)
    (hfields : (FieldMacro.ofPeripheral everything (port name width) w.macros).map Prod.snd =
      .ok macros) :
    ∃ new, peripheral everything d (port name width) w =
      .ok (new, ⟨(name, name) :: w.typedefs, name :: w.described, macros⟩) := by
  obtain ⟨struct, hstruct⟩ := exists_typedef_port d name width w htypedef
  cases hwritten : FieldMacro.ofPeripheral everything (port name width) w.macros with
  | error e =>
    rw [hwritten] at hfields
    cases hfields
  | ok fields =>
    rw [hwritten] at hfields
    cases hfields
    have hdescribed : Header.fieldMacros everything (port name width)
        { w with typedefs := (name, name) :: w.typedefs } =
          .ok (fields.1, ⟨(name, name) :: w.typedefs, name :: w.described, fields.2⟩) := by
      rw [Header.fieldMacros, if_neg (by rw [Bool.not_eq_true]; exact hnew), hwritten]
      rfl
    exact exists_peripheral_of_steps rfl rfl hstruct hdescribed

/-- What has been written after the first port. -/
private def afterFirst : Written :=
  ⟨[("PORTA", "PORTA")], ["PORTA"], [("PORT_PCR_MUX", 8, 3)]⟩

private theorem exists_first_port (b : Nat) :
    ∃ new, peripheral everything (ports 3 b) (port "PORTA" 3) {} = .ok (new, afterFirst) :=
  exists_peripheral_port _ _ _ rfl rfl (by cbv)

private theorem nameOf_of_describes_ports {a : Nat} {source : Peripheral} {r : Register} {f : Field}
    (h : Describes everything (ports a a) source r f) :
    nameOf everything source r f = "PORT_PCR_MUX" := by
  obtain ⟨⟨p, hp, -, hsource⟩, hr, -, fields, hfields, hf⟩ := h
  have hall {name : String} (hname : nameOf everything (port name a) (pcr a) (mux a) =
      "PORT_PCR_MUX") (hsource : source = port name a) : nameOf everything source r f =
        "PORT_PCR_MUX" := by
    subst hsource
    cases List.mem_singleton.1 hr
    cases hfields
    cases List.mem_singleton.1 hf
    exact hname
  obtain ⟨hfirst, hsecond⟩ := nameOf_ports a a
  rcases List.mem_pair.1 hp with rfl | rfl
  · cases hsource
    exact hall hfirst rfl
  · cases hsource
    exact hall hsecond rfl

/-- No other macro of the ports is called like the mask. -/
private theorem count_otherMacros_ports {parts : List Part}
    (hparts : Header.parts everything (ports 3 3) = .ok parts) :
    ((otherMacros everything (ports 3 3) parts).map wordOf).count "PORT_PCR_MUX_MASK" = 0 := by
  have hfront : "PORT_PCR_MUX_MASK" ∉ (frontMacros (ports 3 3)).map wordOf := by decide +kernel
  have hback : "PORT_PCR_MUX_MASK" ∉
      (backMacros [port "PORTA" 3, port "PORTB" 3]).map wordOf := by decide +kernel
  have hmacros : ∀ m ∈ Part.fieldMacros parts, m.name = "PORT_PCR_MUX" := by
    intro m hm
    obtain ⟨source, r, f, hdescribes, hfor⟩ := traced_parts hparts m hm
    rw [hfor.name_eq, nameOf_of_describes_ports hdescribes]
  have haccess : accessMacros parts = [] := by
    refine List.eq_nil_iff_forall_not_mem.2 fun m hm => ?_
    cases ((macrosOf_parts hparts m).1 (mem_accessMacros.1 hm)).1
  refine List.count_eq_zero.2 ?_
  rw [otherMacros, List.map_append, List.map_append, List.mem_append, List.mem_append, not_or,
    not_or, included_ports]
  refine ⟨⟨hfront, fun hmem => ?_⟩, hback⟩
  rw [Part.otherMacros, haccess, List.map_nil, List.append_nil, List.map_map] at hmem
  obtain ⟨m, hm, hname⟩ := List.mem_map.1 hmem
  rw [Function.comp_apply, hmacros m (List.mem_filter.1 hm).1] at hname
  revert hname
  decide

theorem render_fieldMacros_ports :
    (∃ text lines, render everything (ports 3 3) = .ok text ∧
      Header.lines everything (ports 3 3) = .ok lines ∧ text = Text.ended lines ∧
      HasBits everything "PORT_PCR_MUX" 8 3 lines ∧
      (definitions lines).count (.define "PORT_PCR_MUX_MASK") = 1) ∧
    ∃ places, render everything (ports 3 2) = .error ⟨places, .macroRedefined "PORT_PCR_MUX"⟩ := by
  constructor
  · obtain ⟨first, hfirst⟩ := exists_first_port 3
    obtain ⟨second, hsecond⟩ : ∃ new, peripheral everything (ports 3 3) (port "PORTB" 3)
        afterFirst = .ok (new, ⟨[("PORTB", "PORTB"), ("PORTA", "PORTA")], ["PORTB", "PORTA"],
          [("PORT_PCR_MUX", 8, 3)]⟩) :=
      exists_peripheral_port _ _ _ rfl rfl (by cbv)
    have hrun : ∃ out, peripherals everything (ports 3 3) (included everything (ports 3 3)) {} =
        .ok out := by
      rw [included_ports, peripherals_cons_of_ok hfirst, peripherals_cons_of_ok hsecond]
      exact ⟨_, rfl⟩
    obtain ⟨⟨described, w⟩, hrun⟩ := hrun
    obtain ⟨text, hrender⟩ := exists_render_of_run hrun
    obtain ⟨hall, -⟩ := render_fieldMacros (s := everything) (hasDistinctNames_ports 3 3)
    obtain ⟨parts, lines, hparts, -, hlines, htext, hall⟩ := hall text hrender
    obtain ⟨source, hsource, hall⟩ := hall _ List.mem_cons_self rfl
    cases hsource
    obtain ⟨fields, hfields, hall⟩ := hall (pcr 3) (List.mem_singleton_self _) rfl
    cases hfields
    obtain ⟨-, hbits, hcount⟩ := hall (mux 3) (List.mem_singleton_self _)
    rw [(nameOf_ports 3 3).1] at hbits hcount
    have hwords : NamesWords everything (ports 3 3) := fun source r f h => by
      rw [nameOf_of_describes_ports h]
      decide
    have hone := hcount hwords "_MASK" List.mem_cons_self
    rw [show "PORT_PCR_MUX" ++ "_MASK" = "PORT_PCR_MUX_MASK" from rfl,
      count_otherMacros_ports hparts] at hone
    exact ⟨text, lines, hrender, hlines, htext, hbits, hone⟩
  · obtain ⟨first, hfirst⟩ := exists_first_port 2
    obtain ⟨struct, hstruct⟩ := exists_typedef_port (ports 3 2) "PORTA" 3 {} rfl
    obtain ⟨struct', hstruct'⟩ := exists_typedef_port (ports 3 2) "PORTB" 2 afterFirst rfl
    have hdescribes : Describes everything (ports 3 2) (port "PORTA" 3) (pcr 3) (mux 3) :=
      describes_ports List.mem_cons_self rfl rfl
    have hdescribes' : Describes everything (ports 3 2) (port "PORTB" 2) (pcr 2) (mux 2) :=
      describes_ports (List.mem_cons_of_mem _ List.mem_cons_self) rfl rfl
    have hreach : ReachesField everything (ports 3 2) (port "PORTA" 3) (pcr 3) (mux 3) [] :=
      ⟨⟨[("PORTA", "PORTA")], [], []⟩, [],
        ⟨[], _, _, _, _, _, _, included_ports 3 2, rfl, rfl, rfl, hstruct, List.not_mem_nil⟩,
        reaches_port "PORTA" 3 []⟩
    have hreach' : ReachesField everything (ports 3 2) (port "PORTB" 2) (pcr 2) (mux 2)
        afterFirst.macros := by
      have hrun : peripherals everything (ports 3 2) [port "PORTA" 3] {} =
          .ok (first ++ [], afterFirst) := by
        rw [peripherals_cons_of_ok hfirst]
        rfl
      exact ⟨⟨("PORTB", "PORTB") :: afterFirst.typedefs, ["PORTA"], afterFirst.macros⟩, _,
        ⟨[port "PORTA" 3], _, [], _, _, _, _, included_ports 3 2, hrun, rfl, rfl, hstruct',
          by decide⟩, reaches_port "PORTB" 2 _⟩
    obtain ⟨hname, hname'⟩ := nameOf_ports 3 2
    obtain ⟨-, hall⟩ := render_fieldMacros (s := everything) (hasDistinctNames_ports 3 2)
    obtain ⟨-, hconflict⟩ :=
      hall _ _ _ _ _ _ hdescribes hdescribes' (hname.trans hname'.symm) (by decide)
    rw [← hname]
    exact hconflict _ _ hreach hreach'

private def enableBit : Field := { name := "EN", bitOffset := 0, bitWidth := 1 }

private def enableMask : Field := { name := "EN_MASK", bitOffset := 4, bitWidth := 2 }

private def switch : Register := { Register.plain "R" 0 32 with fields := [enableBit, enableMask] }

private def block : Peripheral where
  name := "P"
  baseAddress := 0x1000
  registers := [.register switch]

/-- A register with the fields `EN` and `EN_MASK`. -/
private def enabling : Device where
  name := "D"
  peripherals := [block]

private theorem exists_render_enabling : ∃ text, render {} enabling = .ok text := by
  have hname : enabling.structName block true = .ok "P" := by cbv
  have hgroup : enabling.groupName block = .ok "P" := by cbv
  have hmacros : (FieldMacro.ofPeripheral {} block []).toOption.isSome = true := by cbv
  have hlayout : layout block.registers = .ok [.register switch 0] := by cbv
  have hidentifier : CText.identifier "R" = "R" := by decide +kernel
  have hmembers : structMembers {} block =
      .ok [.word "__IO" .word32 "R" none (some ⟨0, ""⟩)] := by
    rw [structMembers, hlayout]
    simp [Member.ofLayout, Member.ofDecls, Member.ofDecl, Member.ofRegister, switch,
      Register.plain, hidentifier, WordType.ofWidth, Access.qualifier, bind, Except.bind, pure,
      Except.pure]
  exact exists_render_of_single rfl hname hgroup hmembers hmacros (List.mergeSort_singleton _)

private theorem describes_enabling {f : Field} (hf : f ∈ [enableBit, enableMask]) :
    Describes {} enabling block switch f :=
  ⟨⟨block, List.mem_singleton_self _, rfl, rfl⟩, List.mem_singleton_self _, rfl,
    [enableBit, enableMask], rfl, hf⟩

private theorem nameOf_enabling : nameOf {} block switch enableBit = "P_R_EN" ∧
    nameOf {} block switch enableMask = "P_R_EN_MASK" := by
  constructor <;> cbv

private theorem namesWords_enabling : NamesWords {} enabling := by
  rintro source r f ⟨⟨p, hp, -, hsource⟩, hr, -, fields, hfields, hf⟩
  cases List.mem_singleton.1 hp
  cases hsource
  cases List.mem_singleton.1 hr
  cases hfields
  rcases List.mem_pair.1 hf with rfl | rfl
  · rw [nameOf_enabling.1]
    decide
  · rw [nameOf_enabling.2]
    decide

/-- The macro that places values in the second field has the name of the mask of the first. -/
theorem not_once_enabling :
    enabling.HasDistinctNames ∧ Describes {} enabling block switch enableBit ∧
      nameOf {} block switch enableBit = "P_R_EN" ∧
      ∃ text lines, render {} enabling = .ok text ∧ Header.lines {} enabling = .ok lines ∧
        text = Text.ended lines ∧ 2 ≤ (definitions lines).count (.define "P_R_EN_MASK") := by
  have hdistinct : enabling.HasDistinctNames := List.nodup_iff_pairwise_ne.2 (by decide)
  have hfirst := describes_enabling (f := enableBit) List.mem_cons_self
  have hsecond := describes_enabling (f := enableMask)
    (List.mem_cons_of_mem _ List.mem_cons_self)
  obtain ⟨text, hrender⟩ := exists_render_enabling
  obtain ⟨parts, hparts, htext⟩ := bind_eq_ok.1 hrender
  cases htext
  refine ⟨hdistinct, hfirst, nameOf_enabling.1, _, parts.flatMap (Part.lines {}), hrender,
    bind_eq_ok.2 ⟨parts, hparts, rfl⟩, rfl, ?_⟩
  have hsuffix : "_MASK" ∈ [maskSuffix {}, positionSuffix {}] := List.mem_cons_self
  have hcount := count_of_describes hdistinct hparts namesWords_enabling hfirst hsuffix
  rw [nameOf_enabling.1] at hcount
  -- the field of two bits has a macro that places values
  obtain ⟨m, hm, hfits⟩ := macro_of_render hdistinct hparts hsecond
  have hplaces : m.valueType.isSome = true :=
    hfits.places_iff.2 ((Prod.mk.inj hfits.bits_eq).2 ▸ by decide)
  have hname : m.name = "P_R_EN_MASK" := by
    rw [eq_of_beq (of_filter_eq_singleton hm).2, nameOf_enabling.2]
  have hother : "P_R_EN_MASK" ∈ (otherMacros {} enabling parts).map wordOf := by
    have hword : wordOf "P_R_EN_MASK(x)" = "P_R_EN_MASK" := by decide
    have hplacement : "P_R_EN_MASK(x)" ∈ Part.otherMacros parts := by
      refine List.mem_append_left _ (List.mem_map.2 ⟨m,
        List.mem_filter.2 ⟨(of_filter_eq_singleton hm).1, hplaces⟩, ?_⟩)
      rw [hname]
      rfl
    rw [← hword]
    exact List.mem_map_of_mem
      (List.mem_append_left _ (List.mem_append_right _ hplacement))
  have hmore := List.count_pos_iff.2 hother
  have hwhole : "P_R_EN" ++ "_MASK" = "P_R_EN_MASK" := rfl
  rw [hwhole] at hcount
  omega

end Example

end Header

end RegisterMap
