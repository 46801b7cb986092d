import RegisterMap.Proofs.Ensures
import RegisterMap.Proofs.Header.Lines
import RegisterMap.Proofs.Order

/-!
# Devices whose peripherals were changed

When every peripheral of a device is changed in a way that keeps what it is called, where it is and
what it derives from (`Peripheral.KeepsIdentity`), peripherals are found, resolved and named as
before. The header is then written step by step as before, and its parts are related as the parts of
each step are (`Header.parts_agree`).
-/

namespace RegisterMap

/-- The change keeps what headers call a peripheral, where it is and what it derives from. -/
structure Peripheral.KeepsIdentity (f : Peripheral → Peripheral) : Prop where
  name : ∀ p, (f p).name = p.name
  derivedFrom : ∀ p, (f p).derivedFrom = p.derivedFrom
  headerStructName : ∀ p, (f p).headerStructName = p.headerStructName
  groupName : ∀ p, (f p).groupName = p.groupName
  baseAddress : ∀ p, (f p).baseAddress = p.baseAddress
  numberNames : ∀ p, (f p).interrupts.map Interrupt.numberName =
    p.interrupts.map Interrupt.numberName

section Identity

variable {f : Peripheral → Peripheral} {d e : Device}

theorem Peripheral.KeepsIdentity.ownGroupName (hf : KeepsIdentity f) (p : Peripheral) :
    (f p).ownGroupName = p.ownGroupName := by
  rw [Peripheral.ownGroupName, hf.groupName, hf.name, Peripheral.ownGroupName]

namespace Device

theorem find?_map (hf : Peripheral.KeepsIdentity f) (he : e.peripherals = d.peripherals.map f)
    (name : String) : e.find? name = (d.find? name).map f := by
  have hname : ((fun p : Peripheral => p.name == name) ∘ f) = fun p => p.name == name :=
    funext fun p => by simp only [Function.comp_apply, hf.name]
  rw [find?, he, List.find?_map, hname, find?]

theorem resolve_map (hf : Peripheral.KeepsIdentity f) (he : e.peripherals = d.peripherals.map f)
    (p : Peripheral) : e.resolve (f p) = (d.resolve p).map f := by
  unfold resolve
  rw [hf.derivedFrom]
  cases p.derivedFrom with
  | none => rfl
  | some source =>
    simp only [find?_map hf he]
    cases d.find? source with
    | none => rfl
    | some s =>
      have hs : (f s).isDerived = s.isDerived := by
        rw [Peripheral.isDerived, hf.derivedFrom, Peripheral.isDerived]
      simp only [Option.map_some, Option.filter_some, hs]
      cases s.isDerived <;> rfl

theorem structName_map (hf : Peripheral.KeepsIdentity f)
    (he : e.peripherals = d.peripherals.map f) (p : Peripheral) (common : Bool) :
    e.structName (f p) common = d.structName p common := by
  have htypedef (q : Peripheral) : typedefName (f q) common = typedefName q common := by
    rw [typedefName, hf.name, typedefName]
  unfold structName
  rw [hf.headerStructName, resolve_map hf he]
  split
  · rfl
  · cases d.resolve p with
    | error g => rfl
    | ok source =>
      simp only [Except.map, bind, Except.bind, hf.name, hf.headerStructName, htypedef]

theorem groupName_map (hf : Peripheral.KeepsIdentity f)
    (he : e.peripherals = d.peripherals.map f) (p : Peripheral) :
    e.groupName (f p) = d.groupName p := by
  unfold groupName
  rw [hf.groupName, resolve_map hf he]
  split
  · rfl
  · cases d.resolve p with
    | error g => rfl
    | ok source => simp only [Except.map, bind, Except.bind, hf.name, hf.ownGroupName]

end Device

end Identity

/-! ## Field macros -/

/-- The changes keep what field macros are made of. -/
structure FieldMacro.KeepsBits (g : Register → Register) (h : Field → Field) : Prop where
  name : ∀ r, (g r).name = r.name
  width : ∀ r, (g r).width = r.width
  derivedFrom : ∀ r, (g r).derivedFrom = r.derivedFrom
  flags : ∀ r, (g r).flags = r.flags
  fieldName : ∀ f, (h f).name = f.name
  bitOffset : ∀ f, (h f).bitOffset = f.bitOffset
  bitWidth : ∀ f, (h f).bitWidth = f.bitWidth

namespace FieldMacro

variable {g : Register → Register} {h : Field → Field} {p q : Peripheral} {r : Register}

theorem ofFields_map (hgh : KeepsBits g h) (hname : q.name = p.name) (s : Settings)
    (type : WordType) (defined : DefinedMacros) (fs : List Field) :
    ofFields s q (g r) type defined (fs.map h) = ofFields s p r type defined fs := by
  have hbase : (g r).baseName = r.baseName := congrArg Placeholder.dropFrom (hgh.name r)
  have hfield (f : Field) : (h f).baseName = f.baseName :=
    congrArg (Placeholder.fill "n") (hgh.fieldName f)
  have hnameOf (f : Field) : nameOf s q (g r) (h f) = nameOf s p r f := by
    simp only [nameOf, hname, hbase, hfield]
  have hclaim (defined : DefinedMacros) (name : String) (f : Field) :
      claim defined name (h f) = claim defined name f := by
    simp only [claim, hgh.bitOffset, hgh.bitWidth]
  have hofField (name : String) (f : Field) :
      ofField name q (g r) type (h f) = ofField name p r type f := by
    simp only [ofField, hname, hbase, hfield, hgh.bitOffset, hgh.bitWidth]
  induction fs generalizing defined with
  | nil => rfl
  | cons f fs ih =>
    rw [List.map_cons, ofFields, ofFields]
    simp only [hnameOf, hclaim, hofField, hgh.bitOffset, hgh.bitWidth, ih]

theorem inOrder_map (hgh : KeepsBits g h) (fs : List Field) :
    inOrder (fs.map h) = (inOrder fs).map h :=
  (List.map_mergeSort fun a _ b _ => by
    simp only [hgh.bitOffset, hgh.bitWidth]).symm

theorem ofRegister_map (hgh : KeepsBits g h) (hname : q.name = p.name) (s : Settings)
    (hfields : q.fieldsOf (g r) = (p.fieldsOf r).map (List.map h)) (defined : DefinedMacros) :
    ofRegister s q defined (g r) = ofRegister s p defined r := by
  have hdescribed : isDescribed (g r) = isDescribed r := by
    rw [isDescribed, hgh.flags, hgh.derivedFrom, isDescribed]
  have hheading : heading (g r) = heading r := by
    simp only [heading, Register.baseName, hgh.name]
  unfold ofRegister
  rw [hdescribed, hfields, hheading, hgh.width]
  split
  · rfl
  · cases p.fieldsOf r with
    | error e => rfl
    | ok fs =>
      simp only [Except.map, bind, Except.bind, List.isEmpty_map, inOrder_map hgh,
        ofFields_map hgh hname]

theorem ofRegisters_map (hgh : KeepsBits g h) (hname : q.name = p.name) (s : Settings)
    (hfields : ∀ r, q.fieldsOf (g r) = (p.fieldsOf r).map (List.map h)) (defined : DefinedMacros)
    (rs : List Register) :
    ofRegisters s q defined (rs.map g) = ofRegisters s p defined rs := by
  induction rs generalizing defined with
  | nil => rfl
  | cons r rs ih =>
    rw [List.map_cons, ofRegisters, ofRegisters]
    simp only [hname, hgh.name, ofRegister_map hgh hname s (hfields r), ih]

end FieldMacro

/-! ## Headers -/

namespace Header

variable {f : Peripheral → Peripheral} {d e : Device} {s : Settings}
  {R : List Part → List Part → Prop}

theorem included_map (hf : Peripheral.KeepsIdentity f) (he : e.peripherals = d.peripherals.map f)
    (s : Settings) : included s e = (included s d).map f := by
  have hkept : ((fun p : Peripheral => !s.excludes p.name) ∘ f) = fun p => !s.excludes p.name :=
    funext fun p => by simp only [Function.comp_apply, hf.name]
  rw [included, he, List.filter_map, hkept, included]
  exact (List.map_mergeSort fun p _ q _ => by rw [hf.name, hf.name]).symm

theorem interruptList_map (hf : Peripheral.KeepsIdentity f) (p : Peripheral) :
    interruptList (f p) = interruptList p := by
  have hempty : (f p).interrupts.isEmpty = p.interrupts.isEmpty := by
    rw [← List.isEmpty_map, hf.numberNames, List.isEmpty_map]
  simp only [interruptList, hf.numberNames, hf.name, hempty]

/-- What was written is related, and what is known behind it is the same. -/
def Beside {σ : Type} (R : List Part → List Part → Prop) (a b : List Part × σ) : Prop :=
  R a.1 b.1 ∧ a.2 = b.2

/-- The parts of a typedef. -/
def structParts (group name : String) (members : List Member) : List Part :=
  [.plain (Frame.openGroup s!"{group}_structs" s!"{group} struct" s!"Struct for {group}"),
    .typedef name members, .plain (Frame.closeGroup s!"{group}_structs")]

/-- The members of a list of elements. -/
def membersOf (s : Settings) (es : List Element) : Except Failure (List Member) := do
  Member.ofLayout s.bytePadding (← layout es)

theorem typedef_agree (hf : Peripheral.KeepsIdentity f) (he : e.peripherals = d.peripherals.map f)
    (hnil : R [] []) {p source : Peripheral} {name : String} (w : Written)
    (hmembers : ∀ group, d.groupName source = .ok group →
      Agree (fun ms ns => R (structParts group name ms) (structParts group name ns))
        (membersOf s (f source).registers) (membersOf s source.registers)) :
    Agree (Beside R) (typedef s e (f p) (f source) name w) (typedef s d p source name w) := by
  unfold typedef
  rw [hf.name, hf.name, Device.groupName_map hf he]
  split
  · split
    · exact .ok ⟨hnil, rfl⟩
    · exact .error _
  · cases hgroup : d.groupName source with
    | error g => exact .error g
    | ok group =>
      have hjoined (es : List Element) : ∀ {α : Type} (k : List Member → Except Failure α),
          (layout es >>= fun ds => Member.ofLayout s.bytePadding ds >>= k) =
            membersOf s es >>= k := fun k => by
        rw [membersOf, bind_assoc]
      show Agree _ (layout _ >>= fun ds => Member.ofLayout s.bytePadding ds >>= _)
        (layout _ >>= fun ds => Member.ofLayout s.bytePadding ds >>= _)
      rw [hjoined, hjoined]
      exact (hmembers group hgroup).bind fun ms ns _ _ h => .ok ⟨h, rfl⟩

theorem fieldMacros_agree (hf : Peripheral.KeepsIdentity f) (hnil : R [] []) {source : Peripheral}
    (w : Written) (hmacros : Agree (Beside R) (FieldMacro.ofPeripheral s (f source) w.macros)
      (FieldMacro.ofPeripheral s source w.macros)) :
    Agree (Beside R) (fieldMacros s (f source) w) (fieldMacros s source w) := by
  unfold fieldMacros
  rw [hf.name]
  split
  · exact .ok ⟨hnil, rfl⟩
  · refine hmacros.bind fun a b _ _ h => ?_
    rw [show b = (b.1, a.2) from Prod.ext rfl h.2.symm]
    exact .ok ⟨h.1, rfl⟩

variable (happend : ∀ {a b a' b' : List Part}, R a b → R a' b' → R (a ++ a') (b ++ b'))

include happend in
theorem peripheral_agree (hf : Peripheral.KeepsIdentity f)
    (he : e.peripherals = d.peripherals.map f) (hnil : R [] []) {p : Peripheral} (w : Written)
    (hheading : R [.plain (heading (f p))] [.plain (heading p)])
    (hmembers : ∀ source name group, d.resolve p = .ok source →
      d.structName p s.commonNames = .ok name → d.groupName source = .ok group →
      Agree (fun ms ns => R (structParts group name ms) (structParts group name ns))
        (membersOf s (f source).registers) (membersOf s source.registers))
    (hmacros : ∀ source defined, d.resolve p = .ok source →
      Agree (Beside R) (FieldMacro.ofPeripheral s (f source) defined)
        (FieldMacro.ofPeripheral s source defined))
    (haccess : ∀ source, d.resolve p = .ok source →
      R (AccessMacro.ofPeripheral s (f p) (f source)) (AccessMacro.ofPeripheral s p source)) :
    Agree (Beside R) (peripheral s e (f p) w) (peripheral s d p w) := by
  unfold peripheral
  rw [Device.resolve_map hf he, Device.structName_map hf he]
  cases hsource : d.resolve p with
  | error g => exact .error g
  | ok source =>
    cases hname : d.structName p s.commonNames with
    | error g => exact .error g
    | ok name =>
      refine (typedef_agree hf he hnil w fun group hgroup =>
        hmembers source name group hsource hname hgroup).bind fun a b _ _ hstruct => ?_
      obtain ⟨struct, w'⟩ := a
      obtain ⟨struct', w''⟩ := b
      obtain ⟨hstruct, rfl⟩ := hstruct
      refine (fieldMacros_agree hf hnil w' (hmacros source w'.macros hsource)).bind
        fun a b _ _ hfields => .ok ⟨?_, hfields.2⟩
      have hregisters : R (if s.registerMacros then AccessMacro.ofPeripheral s (f p) (f source)
          else []) (if s.registerMacros then AccessMacro.ofPeripheral s p source else []) := by
        split
        · exact haccess source hsource
        · exact hnil
      exact happend (happend (happend hheading hstruct) hfields.1) hregisters

include happend in
theorem peripherals_agree (hf : Peripheral.KeepsIdentity f) (hnil : R [] []) {ps : List Peripheral}
    (w : Written)
    (hps : ∀ p ∈ ps, ∀ w, Agree (Beside R) (peripheral s e (f p) w) (peripheral s d p w)) :
    Agree (Beside R) (peripherals s e (ps.map f) w) (peripherals s d ps w) := by
  induction ps generalizing w with
  | nil => exact .ok ⟨hnil, rfl⟩
  | cons p ps ih =>
    obtain ⟨hp, hps⟩ := List.forall_mem_cons.1 hps
    rw [List.map_cons, peripherals, peripherals, hf.name]
    refine (hp w).within.bind fun a b _ _ hhere => ?_
    obtain ⟨here, w'⟩ := a
    obtain ⟨here', w''⟩ := b
    obtain ⟨hhere, rfl⟩ := hhere
    exact (ih w' hps).bind fun a b _ _ hrest => .ok ⟨happend hhere hrest.1, hrest.2⟩

theorem pointersOf_map (hf : Peripheral.KeepsIdentity f)
    (he : e.peripherals = d.peripherals.map f) (ps : List Peripheral) :
    pointersOf s e (ps.map f) = pointersOf s d ps := by
  unfold pointersOf
  induction ps with
  | nil => rfl
  | cons p ps ih =>
    rw [List.map_cons, List.mapM_cons, List.mapM_cons, ih, Device.structName_map hf he, hf.name]

theorem back_map (hf : Peripheral.KeepsIdentity f) (hname : e.name = d.name)
    (ps : List Peripheral) (pointers : List Part) :
    back e (ps.map f) pointers = back d ps pointers := by
  have hbases : (ps.map f).map (fun p => Part.base p.name p.baseAddress) =
      ps.map fun p => .base p.name p.baseAddress := by
    rw [List.map_map]
    exact List.map_congr_left fun p _ => by
      rw [Function.comp_apply, hf.name, hf.baseAddress]
  have hlists : (ps.map f).flatMap interruptList = ps.flatMap interruptList := by
    rw [List.flatMap_map]
    exact List.flatMap_congr fun p _ => interruptList_map hf p
  have hclosing : closing e = closing d := by rw [closing, hname, closing]
  rw [back, hbases, hlists, hclosing, back]

include happend in
/-- The parts of the header of a changed device are related to those of the device as the parts of
each step are. -/
theorem parts_agree (hf : Peripheral.KeepsIdentity f) (he : e.peripherals = d.peripherals.map f)
    (hname : e.name = d.name) (hnil : R [] []) (hfront : R (front e) (front d))
    (hps : ∀ p ∈ included s d, ∀ w,
      Agree (Beside R) (peripheral s e (f p) w) (peripheral s d p w))
    (hback : ∀ pointers, pointersOf s d (included s d) = .ok pointers →
      R (back d (included s d) pointers) (back d (included s d) pointers)) :
    Agree R (parts s e) (parts s d) := by
  rw [parts_eq, parts_eq, included_map hf he]
  refine (peripherals_agree happend hf hnil {} hps).bind fun a b _ _ hdescribed => ?_
  rw [pointersOf_map hf he]
  cases hpointers : pointersOf s d (included s d) with
  | error g => exact .error g
  | ok pointers =>
    simp only [back_map hf hname]
    exact .ok (happend (happend hfront hdescribed.1) (hback pointers hpointers))

end Header

end RegisterMap
