import RegisterMap.Proofs.Header.Lines
import RegisterMap.Proofs.Success

/-!
# What a header defines

The typedefs, macros and pointers among the parts of a header, and what a part of the run over the
peripherals adds to them (`peripheral_ok`, `typedef_ok`, `fieldMacros_ok`). The run keeps tables of
the names it has given away; `DefinedBy` says that what was written agrees with such a table name by
name. The parts account for every definition that a line of the header makes
(`count_definitions_parts`).
-/

namespace RegisterMap

/-! ## Definitions by name -/

section DefinedBy

variable {α β : Type} {nameOf : α → String} {fits : α → β → Prop} {table : List (String × β)}
  {out : List α} {a : α} {b : β} {n : String}

/-- What was written has one definition for each name of the table, which fits the entry, and none
for any other name. -/
def DefinedBy (nameOf : α → String) (fits : α → β → Prop) (table : List (String × β))
    (out : List α) : Prop :=
  ∀ n,
    match table.lookup n with
    | none => out.filter (nameOf · == n) = []
    | some b => ∃ a, out.filter (nameOf · == n) = [a] ∧ fits a b

theorem definedBy_nil : DefinedBy nameOf fits [] [] := fun _ => rfl

theorem DefinedBy.exists_of_lookup (h : DefinedBy nameOf fits table out)
    (hn : table.lookup n = some b) : ∃ a, out.filter (nameOf · == n) = [a] ∧ fits a b := by
  have hdefined := h n
  rw [hn] at hdefined
  exact hdefined

/-- One more definition under a new name. -/
theorem DefinedBy.concat (h : DefinedBy nameOf fits table out)
    (hnew : table.lookup (nameOf a) = none) (hfits : fits a b) :
    DefinedBy nameOf fits ((nameOf a, b) :: table) (out ++ [a]) := by
  intro n
  have hdefined := h n
  by_cases hn : nameOf a = n
  · subst hn
    rw [hnew] at hdefined
    rw [List.lookup_cons_self]
    exact ⟨a, by simp [hdefined], hfits⟩
  · have hne : (n == nameOf a) = false := beq_false_of_ne fun e => hn e.symm
    have hkept : (out ++ [a]).filter (nameOf · == n) = out.filter (nameOf · == n) := by
      simp [beq_false_of_ne hn]
    rw [List.lookup_cons, hne, hkept]
    exact hdefined

/-- A table that only has entries added keeps those that it has. -/
def Extends (old new : List (String × β)) : Prop :=
  ∀ n b, old.lookup n = some b → new.lookup n = some b

theorem Extends.refl (t : List (String × β)) : Extends t t := fun _ _ h => h

theorem Extends.trans {t u v : List (String × β)} (h : Extends t u) (g : Extends u v) :
    Extends t v := fun n b hn => g n b (h n b hn)

theorem extends_cons (hnew : table.lookup n = none) (b : β) :
    Extends table ((n, b) :: table) := by
  intro m c hm
  have hne : (m == n) = false := beq_false_of_ne (by
    rintro rfl
    rw [hnew] at hm
    cases hm)
  rw [List.lookup_cons, hne]
  exact hm

end DefinedBy

/-! ## Definitions among parts -/

namespace Part

/-- The typedefs among parts. -/
def typedefs (ps : List Part) : List (String × List Member) :=
  ps.filterMap fun
    | typedef name members => some (name, members)
    | _ => none

/-- The field macros among parts. -/
def fieldMacros (ps : List Part) : List FieldMacro :=
  ps.filterMap fun
    | fieldMacro m => some m
    | _ => none

/-- The register macros among parts. -/
def accessMacros (ps : List Part) : List AccessMacro :=
  ps.filterMap fun
    | accessMacro m => some m
    | _ => none

/-- The pointers among parts, as the names of peripheral and typedef. -/
def pointers (ps : List Part) : List (String × String) :=
  ps.filterMap fun
    | pointer peripheral name => some (peripheral, name)
    | _ => none

section

variable (ps qs : List Part)

@[simp] theorem typedefs_append : typedefs (ps ++ qs) = typedefs ps ++ typedefs qs :=
  List.filterMap_append

@[simp] theorem fieldMacros_append : fieldMacros (ps ++ qs) = fieldMacros ps ++ fieldMacros qs :=
  List.filterMap_append

@[simp] theorem accessMacros_append :
    accessMacros (ps ++ qs) = accessMacros ps ++ accessMacros qs := List.filterMap_append

@[simp] theorem pointers_append : pointers (ps ++ qs) = pointers ps ++ pointers qs :=
  List.filterMap_append

@[simp] theorem typedefs_plain (ls : List String) : typedefs (plain ls :: ps) = typedefs ps := rfl

@[simp] theorem fieldMacros_plain (ls : List String) :
    fieldMacros (plain ls :: ps) = fieldMacros ps := rfl

@[simp] theorem accessMacros_plain (ls : List String) :
    accessMacros (plain ls :: ps) = accessMacros ps := rfl

@[simp] theorem pointers_plain (ls : List String) : pointers (plain ls :: ps) = pointers ps := rfl

@[simp] theorem fieldMacros_fieldMacro (m : FieldMacro) :
    fieldMacros (fieldMacro m :: ps) = m :: fieldMacros ps := rfl

@[simp] theorem typedefs_nil : typedefs [] = [] := rfl

@[simp] theorem fieldMacros_nil : fieldMacros [] = [] := rfl

@[simp] theorem accessMacros_nil : accessMacros [] = [] := rfl

@[simp] theorem pointers_nil : pointers [] = [] := rfl

end

theorem mem_accessMacros {ps : List Part} {m : AccessMacro} :
    m ∈ accessMacros ps ↔ accessMacro m ∈ ps := by
  rw [accessMacros, List.mem_filterMap]
  constructor
  · rintro ⟨p, hp, h⟩
    cases p <;> cases h
    exact hp
  · exact fun h => ⟨_, h, rfl⟩

/-- The parts define nothing but register macros. -/
def DefinesNoName (ps : List Part) : Prop :=
  typedefs ps = [] ∧ fieldMacros ps = [] ∧ pointers ps = []

theorem definesNoName_accessMacros (ms : List AccessMacro) :
    DefinesNoName (ms.map accessMacro) := by
  induction ms with
  | nil => exact ⟨rfl, rfl, rfl⟩
  | cons m ms ih => exact ih

/-- Pointers define nothing else. -/
theorem definitions_pointers (xs : List (String × String)) :
    typedefs (xs.map fun x => pointer x.1 x.2) = [] ∧
      fieldMacros (xs.map fun x => pointer x.1 x.2) = [] ∧
      accessMacros (xs.map fun x => pointer x.1 x.2) = [] ∧
      pointers (xs.map fun x => pointer x.1 x.2) = xs := by
  induction xs with
  | nil => exact ⟨rfl, rfl, rfl, rfl⟩
  | cons x xs ih => exact ⟨ih.1, ih.2.1, ih.2.2.1, congrArg (x :: ·) ih.2.2.2⟩

theorem definitions_bases (ps : List Peripheral) :
    DefinesNoName (ps.map fun p => base p.name p.baseAddress) ∧
      accessMacros (ps.map fun p => base p.name p.baseAddress) = [] := by
  induction ps with
  | nil => exact ⟨⟨rfl, rfl, rfl⟩, rfl⟩
  | cons p ps ih => exact ih

/-! ### Parts for a peripheral -/

/-- The macros of a field, or text that defines nothing. -/
inductive IsFieldPart : Part → Prop
  | plain {ls : List String} (quiet : CText.definitions ls = []) : IsFieldPart (plain ls)
  | fieldMacro (m : FieldMacro) : IsFieldPart (fieldMacro m)

/-- A typedef, macros, or text that defines nothing. -/
inductive IsBodyPart : Part → Prop
  | field {p : Part} (part : p.IsFieldPart) : IsBodyPart p
  | typedef (name : String) (members : List Member) : IsBodyPart (typedef name members)
  | accessMacro (m : AccessMacro) : IsBodyPart (accessMacro m)

/-- Field macros are no other definitions. -/
theorem definitions_of_isFieldPart {ps : List Part} (h : ∀ p ∈ ps, p.IsFieldPart) :
    typedefs ps = [] ∧ accessMacros ps = [] ∧ pointers ps = [] := by
  refine ⟨List.filterMap_eq_nil_iff.2 fun p hp => ?_, List.filterMap_eq_nil_iff.2 fun p hp => ?_,
    List.filterMap_eq_nil_iff.2 fun p hp => ?_⟩ <;> cases h p hp <;> rfl

/-- The masks and positions of field macros. -/
def fieldDefinitions (s : Settings) (ms : List FieldMacro) : List CText.Definition :=
  ms.flatMap fun m => [.define (CText.wordOf (m.maskName s)),
    .define (CText.wordOf (m.positionName s))]

/-- The names of macros that place values in fields, and of register macros. -/
def otherMacros (ps : List Part) : List String :=
  ((fieldMacros ps).filter (·.valueType.isSome)).map (·.name ++ "(x)") ++
    (accessMacros ps).map AccessMacro.name

/-- The definitions in the lines of parts for peripherals are those of their typedefs and
macros. -/
theorem count_definitions_body {s : Settings} {ps : List Part} (h : ∀ p ∈ ps, p.IsBodyPart)
    (x : CText.Definition) :
    (ps.flatMap (definitions s)).count x =
      ((typedefs ps).map fun t => .struct (typedefLine t.1)).count x +
        (fieldDefinitions s (fieldMacros ps)).count x +
        ((otherMacros ps).map fun name => .define (CText.wordOf name)).count x := by
  induction ps with
  | nil => rfl
  | cons p ps ih =>
    obtain ⟨hp, hps⟩ := List.forall_mem_cons.1 h
    rw [List.flatMap_cons, List.count_append, ih hps, ← List.singleton_append]
    simp only [typedefs_append, fieldMacros_append, otherMacros, accessMacros_append,
      fieldDefinitions, List.map_append, List.filter_append, List.flatMap_append,
      List.count_append]
    cases hp with
    | field hfield =>
      cases hfield with
      | plain hquiet => simp [definitions, hquiet]
      | fieldMacro m =>
        cases hvalue : m.valueType <;>
          simp [definitions, typedefs, fieldMacros, accessMacros, hvalue, List.count_cons] <;> omega
    | typedef name members =>
      simp [definitions, typedefs, fieldMacros, accessMacros]
      omega
    | accessMacro m =>
      simp [definitions, typedefs, fieldMacros, accessMacros]
      omega

end Part

namespace FieldMacro

open RegisterMap.Part

variable {s : Settings} {p : Peripheral} {r : Register} {type : WordType}
  {defined defined' : DefinedMacros} {fs : List Field} {rs : List Register} {new : List Part}

/-- A field whose name is new gets macros, one whose name stands for its bits gets none. -/
theorem ofFields_cons_ok {f : Field}
    (h : ofFields s p r type defined (f :: fs) = .ok (new, defined')) :
    (defined.lookup (nameOf s p r f) = some (f.bitOffset, f.bitWidth) ∧
        ofFields s p r type defined fs = .ok (new, defined')) ∨
      (defined.lookup (nameOf s p r f) = none ∧ ∃ m rest,
        ofField (nameOf s p r f) p r type f = .ok m ∧
        ofFields s p r type ((nameOf s p r f, f.bitOffset, f.bitWidth) :: defined) fs =
          .ok (rest, defined') ∧ new = .fieldMacro m :: rest) := by
  obtain ⟨isNew, hclaim, h⟩ := bind_eq_ok.1 h
  unfold claim at hclaim
  split at hclaim
  · rename_i hnone
    cases hclaim
    obtain ⟨m, hm, h⟩ := bind_eq_ok.1 h
    obtain ⟨⟨rest, defined₁⟩, hrest, h⟩ := bind_eq_ok.1 h
    cases h
    exact .inr ⟨hnone, m, rest, hm, hrest, rfl⟩
  · rename_i bits hsome
    split at hclaim
    · rename_i hbits
      cases hclaim
      exact .inl ⟨by rw [hsome, hbits], h⟩
    · cases hclaim

theorem isFieldPart_of_mem_ofFields (h : ofFields s p r type defined fs = .ok (new, defined')) :
    ∀ part ∈ new, part.IsFieldPart := by
  induction fs generalizing defined new with
  | nil =>
    cases h
    exact nofun
  | cons f fs ih =>
    rcases ofFields_cons_ok h with ⟨-, hrest⟩ | ⟨-, m, rest, -, hrest, rfl⟩
    · exact ih hrest
    · exact List.forall_mem_cons.2 ⟨.fieldMacro m, ih hrest⟩

/-- A register that is described has the macros of its fields under a heading, if it has fields. -/
theorem ofRegister_ok (h : ofRegister s p defined r = .ok (new, defined')) :
    (isDescribed r = false ∧ new = [] ∧ defined' = defined) ∨
      (isDescribed r = true ∧ ∃ fields, p.fieldsOf r = .ok fields ∧
        ((fields = [] ∧ new = [] ∧ defined' = defined) ∨
          ∃ type rest, WordType.ofWidth r.width = .ok type ∧
            ofFields s p r type defined (inOrder fields) = .ok (rest, defined') ∧
            new = .plain [heading r] :: rest)) := by
  unfold ofRegister at h
  split at h
  · rename_i hdescribed
    cases h
    exact .inl ⟨by simpa using hdescribed, rfl, rfl⟩
  · rename_i hdescribed
    obtain ⟨fields, hfields, h⟩ := bind_eq_ok.1 h
    refine .inr ⟨by simpa using hdescribed, fields, hfields, ?_⟩
    split at h
    · rename_i hempty
      cases h
      exact .inl ⟨List.isEmpty_iff.1 hempty, rfl, rfl⟩
    · obtain ⟨type, htype, h⟩ := bind_eq_ok.1 h
      obtain ⟨⟨rest, defined₁⟩, hrest, h⟩ := bind_eq_ok.1 h
      cases h
      exact .inr ⟨type, rest, htype, hrest, rfl⟩

theorem isFieldPart_of_mem_ofRegister (h : ofRegister s p defined r = .ok (new, defined')) :
    ∀ part ∈ new, part.IsFieldPart := by
  rcases ofRegister_ok h with ⟨-, rfl, -⟩ |
    ⟨-, fields, -, ⟨-, rfl, -⟩ | ⟨type, rest, -, hrest, rfl⟩⟩
  · exact nofun
  · exact nofun
  · exact List.forall_mem_cons.2 ⟨.plain (definitions_heading r), isFieldPart_of_mem_ofFields hrest⟩

theorem ofRegisters_cons_ok (h : ofRegisters s p defined (r :: rs) = .ok (new, defined')) :
    ∃ here defined₁ rest, ofRegister s p defined r = .ok (here, defined₁) ∧
      ofRegisters s p defined₁ rs = .ok (rest, defined') ∧ new = here ++ rest := by
  obtain ⟨⟨here, defined₁⟩, hhere, h⟩ := bind_eq_ok.1 h
  obtain ⟨⟨rest, defined₂⟩, hrest, h⟩ := bind_eq_ok.1 h
  cases h
  exact ⟨here, defined₁, rest, within_eq_ok.1 hhere, hrest, rfl⟩

theorem isFieldPart_of_mem_ofRegisters (h : ofRegisters s p defined rs = .ok (new, defined')) :
    ∀ part ∈ new, part.IsFieldPart := by
  induction rs generalizing defined new with
  | nil =>
    cases h
    exact nofun
  | cons r rs ih =>
    obtain ⟨here, defined₁, rest, hhere, hrest, rfl⟩ := ofRegisters_cons_ok h
    exact List.forall_mem_append.2 ⟨isFieldPart_of_mem_ofRegister hhere, ih hrest⟩

/-- The macros of a peripheral are those of its registers in layout order. -/
theorem ofPeripheral_ok (h : ofPeripheral s p defined = .ok (new, defined')) :
    ∃ first body last,
      ofRegisters s p defined (Element.registersAll (Element.sortAll p.registers)) =
        .ok (body, defined') ∧ new = .plain first :: (body ++ [.plain last]) ∧
      CText.definitions first = [] ∧ CText.definitions last = [] := by
  obtain ⟨⟨body, defined₁⟩, hbody, h⟩ := bind_eq_ok.1 h
  cases h
  refine ⟨_, body, _, hbody, rfl, ?_, Frame.definitions_closeGroup _⟩
  rw [CText.definitions_append, Frame.definitions_banner, Frame.definitions_openGroup]
  rfl

theorem isFieldPart_of_mem_ofPeripheral (h : ofPeripheral s p defined = .ok (new, defined')) :
    ∀ part ∈ new, part.IsFieldPart := by
  obtain ⟨first, body, last, hbody, rfl, hfirst, hlast⟩ := ofPeripheral_ok h
  refine List.forall_mem_cons.2 ⟨.plain hfirst, List.forall_mem_append.2
    ⟨isFieldPart_of_mem_ofRegisters hbody, List.forall_mem_singleton.2 (.plain hlast)⟩⟩

end FieldMacro

namespace Header

open RegisterMap.Part

variable {s : Settings} {d : Device} {p source : Peripheral} {name : String} {w w' : Written}
  {ps qs : List Peripheral} {new : List Part}

/-! ## Steps of the run -/

/-- The members of the structure for the registers of a peripheral. -/
def structMembers (s : Settings) (source : Peripheral) : Except Failure (List Member) := do
  Member.ofLayout s.bytePadding (← layout source.registers)

/-- A typedef is written for a new name, and one that is there is that of the same registers. -/
theorem typedef_ok (h : typedef s d p source name w = .ok (new, w')) :
    (w.typedefs.lookup name = some source.name ∧ new = [] ∧ w' = w) ∨
      (w.typedefs.lookup name = none ∧
        (∃ first members last, structMembers s source = .ok members ∧
          new = [.plain first, .typedef name members, .plain last] ∧
          CText.definitions first = [] ∧ CText.definitions last = []) ∧
        w' = { w with typedefs := (name, source.name) :: w.typedefs }) := by
  unfold typedef at h
  split at h
  · rename_i owner howner
    split at h
    · rename_i heq
      cases h
      exact .inl ⟨by rw [howner, heq], rfl, rfl⟩
    · cases h
  · rename_i hnone
    obtain ⟨group, -, h⟩ := bind_eq_ok.1 h
    obtain ⟨decls, hdecls, h⟩ := bind_eq_ok.1 h
    obtain ⟨members, hmembers, h⟩ := bind_eq_ok.1 h
    cases h
    exact .inr ⟨hnone, ⟨_, members, _, bind_eq_ok.2 ⟨decls, hdecls, hmembers⟩, rfl,
      Frame.definitions_openGroup .., Frame.definitions_closeGroup _⟩, rfl⟩

theorem exists_typedef_of_new (group : String) (members : List Member)
    (hnone : w.typedefs.lookup name = none) (hgroup : d.groupName source = .ok group)
    (hmembers : structMembers s source = .ok members) :
    ∃ new, typedef s d p source name w =
      .ok (new, { w with typedefs := (name, source.name) :: w.typedefs }) := by
  obtain ⟨decls, hdecls, hmembers⟩ := bind_eq_ok.1 hmembers
  unfold typedef
  rw [hnone]
  exact ⟨_, bind_eq_ok.2 ⟨group, hgroup, bind_eq_ok.2 ⟨decls, hdecls,
    bind_eq_ok.2 ⟨members, hmembers, rfl⟩⟩⟩⟩

/-- The field macros of a peripheral are written the first time that it comes. -/
theorem fieldMacros_ok (h : Header.fieldMacros s source w = .ok (new, w')) :
    (source.name ∈ w.described ∧ new = [] ∧ w' = w) ∨
      (source.name ∉ w.described ∧ ∃ macros,
        FieldMacro.ofPeripheral s source w.macros = .ok (new, macros) ∧
        w' = { w with described := source.name :: w.described, macros }) := by
  unfold Header.fieldMacros at h
  split at h
  · rename_i hmem
    cases h
    exact .inl ⟨List.contains_iff_mem.1 hmem, rfl, rfl⟩
  · rename_i hmem
    obtain ⟨⟨parts, macros⟩, hmacros, h⟩ := bind_eq_ok.1 h
    cases h
    exact .inr ⟨fun hm => hmem (List.contains_iff_mem.2 hm), macros, hmacros, rfl⟩

/-- The register macros of a peripheral, if the settings ask for them. -/
def registerMacros (s : Settings) (p source : Peripheral) : List Part :=
  if s.registerMacros then AccessMacro.ofPeripheral s p source else []

theorem definesNoName_registerMacros (s : Settings) (p source : Peripheral) :
    DefinesNoName (registerMacros s p source) := by
  unfold registerMacros
  split
  · exact definesNoName_accessMacros _
  · exact ⟨rfl, rfl, rfl⟩

/-- A peripheral is resolved and named, then come its typedef and its macros. -/
theorem peripheral_ok (h : peripheral s d p w = .ok (new, w')) :
    ∃ source name struct wₛ fields,
      d.resolve p = .ok source ∧ d.structName p s.commonNames = .ok name ∧
      typedef s d p source name w = .ok (struct, wₛ) ∧
      Header.fieldMacros s source wₛ = .ok (fields, w') ∧
      new = .plain (heading p) :: (struct ++ fields ++ registerMacros s p source) := by
  obtain ⟨source, hsource, h⟩ := bind_eq_ok.1 h
  obtain ⟨name, hname, h⟩ := bind_eq_ok.1 h
  obtain ⟨⟨struct, wₛ⟩, hstruct, h⟩ := bind_eq_ok.1 h
  obtain ⟨⟨fields, wₘ⟩, hfields, h⟩ := bind_eq_ok.1 h
  cases h
  exact ⟨source, name, struct, wₛ, fields, hsource, hname, hstruct, hfields, rfl⟩

theorem isFieldPart_of_mem_fieldMacros (h : Header.fieldMacros s source w = .ok (new, w')) :
    ∀ part ∈ new, part.IsFieldPart := by
  rcases fieldMacros_ok h with ⟨-, rfl, -⟩ | ⟨-, macros, hmacros, -⟩
  · exact nofun
  · exact FieldMacro.isFieldPart_of_mem_ofPeripheral hmacros

theorem isBodyPart_of_mem_peripheral (h : peripheral s d p w = .ok (new, w')) :
    ∀ part ∈ new, part.IsBodyPart := by
  obtain ⟨source, name, struct, wₛ, fields, -, -, hstruct, hfields, rfl⟩ := peripheral_ok h
  refine List.forall_mem_cons.2 ⟨.field (.plain (definitions_heading p)), ?_⟩
  rw [List.forall_mem_append, List.forall_mem_append]
  refine ⟨⟨?_, fun part hpart => .field (isFieldPart_of_mem_fieldMacros hfields part hpart)⟩, ?_⟩
  · rcases typedef_ok hstruct with
      ⟨-, rfl, -⟩ | ⟨-, ⟨first, members, last, -, rfl, hfirst, hlast⟩, -⟩
    · exact nofun
    · exact List.forall_mem_cons.2 ⟨.field (.plain hfirst), List.forall_mem_cons.2
        ⟨.typedef name members, List.forall_mem_singleton.2 (.field (.plain hlast))⟩⟩
  · unfold registerMacros
    split
    · exact List.forall_mem_cons.2 ⟨.field (.plain (Frame.definitions_banner _)),
        List.forall_mem_map.2 fun m _ => .accessMacro m⟩
    · exact nofun

theorem exists_peripheral_of_steps {struct fields : List Part} {wₛ : Written}
    (hsource : d.resolve p = .ok source) (hname : d.structName p s.commonNames = .ok name)
    (hstruct : typedef s d p source name w = .ok (struct, wₛ))
    (hfields : Header.fieldMacros s source wₛ = .ok (fields, w')) :
    ∃ new, peripheral s d p w = .ok (new, w') := by
  unfold peripheral
  rw [hsource]
  simp only [bind, Except.bind]
  rw [hname]
  simp only
  rw [hstruct]
  simp only
  rw [hfields]
  exact ⟨_, rfl⟩

theorem peripherals_cons_ok (h : peripherals s d (p :: ps) w = .ok (new, w')) :
    ∃ here w₁ rest, peripheral s d p w = .ok (here, w₁) ∧
      peripherals s d ps w₁ = .ok (rest, w') ∧ new = here ++ rest := by
  obtain ⟨⟨here, w₁⟩, hhere, h⟩ := bind_eq_ok.1 h
  obtain ⟨⟨rest, w₂⟩, hrest, h⟩ := bind_eq_ok.1 h
  cases h
  exact ⟨here, w₁, rest, within_eq_ok.1 hhere, hrest, rfl⟩

theorem isBodyPart_of_mem_peripherals (h : peripherals s d ps w = .ok (new, w')) :
    ∀ part ∈ new, part.IsBodyPart := by
  induction ps generalizing w new with
  | nil =>
    cases h
    exact nofun
  | cons p ps ih =>
    obtain ⟨here, w₁, rest, hhere, hrest, rfl⟩ := peripherals_cons_ok h
    exact List.forall_mem_append.2 ⟨isBodyPart_of_mem_peripheral hhere, ih hrest⟩

/-- After a peripheral that succeeds the run goes on with the next ones. -/
theorem peripherals_cons_of_ok {here : List Part} {w₁ : Written}
    (h : peripheral s d p w = .ok (here, w₁)) :
    peripherals s d (p :: ps) w =
      (peripherals s d ps w₁).map fun x => (here ++ x.1, x.2) := by
  rw [peripherals, h]
  cases hrest : peripherals s d ps w₁ <;>
    simp [hrest, bind, Except.bind, pure, Except.pure, Except.map]

/-- The header has exactly the peripherals that are not left out. -/
theorem mem_included : p ∈ included s d ↔ p ∈ d.peripherals ∧ s.excludes p.name = false := by
  unfold included
  rw [List.mem_mergeSort, List.mem_filter, Bool.not_eq_true']

/-- The pointers of peripherals, by the names of their typedefs. -/
theorem exists_names_of_mapM {parts : List Part}
    (h : (ps.mapM fun p => do
      return Part.pointer p.name (← d.structName p s.commonNames)) = .ok parts) :
    ∃ names, List.Forall₂ (fun p name => d.structName p s.commonNames = .ok name) ps names ∧
      parts = ((ps.map Peripheral.name).zip names).map fun x => .pointer x.1 x.2 := by
  rw [mapM_eq_ok_iff] at h
  induction h with
  | nil => exact ⟨[], .nil, rfl⟩
  | cons hp _ ih =>
    obtain ⟨names, hnames, rfl⟩ := ih
    obtain ⟨name, hname, hp⟩ := bind_eq_ok.1 hp
    cases hp
    exact ⟨name :: names, .cons hname hnames, rfl⟩

/-- Typedefs and macros come from the run over the peripherals, pointers behind it. -/
theorem parts_ok {parts : List Part} (h : Header.parts s d = .ok parts) :
    ∃ described w names, peripherals s d (included s d) {} = .ok (described, w) ∧
      List.Forall₂ (fun p name => d.structName p s.commonNames = .ok name) (included s d) names ∧
      parts = front d ++ described ++ back d (included s d)
        ((((included s d).map Peripheral.name).zip names).map fun x => .pointer x.1 x.2) ∧
      typedefs parts = typedefs described ∧ Part.fieldMacros parts = Part.fieldMacros described ∧
      accessMacros parts = accessMacros described ∧
      pointers parts =
        pointers described ++ ((included s d).map Peripheral.name).zip names := by
  rw [parts_eq] at h
  obtain ⟨⟨described, w⟩, hrun, h⟩ := bind_eq_ok.1 h
  obtain ⟨ptrs, hptrs, h⟩ := bind_eq_ok.1 h
  cases h
  obtain ⟨names, hnames, rfl⟩ := exists_names_of_mapM hptrs
  obtain ⟨⟨hbt, hbm, hbp⟩, hba⟩ := definitions_bases (included s d)
  obtain ⟨hpt, hpm, hpa, hpp⟩ :=
    definitions_pointers (((included s d).map Peripheral.name).zip names)
  refine ⟨described, w, names, hrun, hnames, rfl, ?_, ?_, ?_, ?_⟩
  · simp [front, back, hbt, hpt]
  · simp [front, back, hbm, hpm]
  · simp [front, back, hba, hpa]
  · simp [front, back, hbp, hpp]

/-- The names of all macros of a header but the masks and positions of fields. -/
def otherMacros (s : Settings) (d : Device) (parts : List Part) : List String :=
  frontMacros d ++ Part.otherMacros parts ++ backMacros (included s d)

/-- **Definitions.** The lines of a header define its typedefs, the masks and positions of its
fields and its other macros, each as often as its parts say. -/
theorem count_definitions_parts {parts : List Part} (h : Header.parts s d = .ok parts)
    (x : CText.Definition) :
    (CText.definitions (parts.flatMap (Part.lines s))).count x =
      ((typedefs parts).map fun t => .struct (typedefLine t.1)).count x +
        (fieldDefinitions s (Part.fieldMacros parts)).count x +
        ((otherMacros s d parts).map fun name => .define (CText.wordOf name)).count x := by
  obtain ⟨described, w, names, hrun, hnames, hparts, htypedefs, hmacros, haccess, -⟩ := parts_ok h
  have hbody := count_definitions_body (isBodyPart_of_mem_peripherals hrun) x (s := s)
  have hpointers : ((((included s d).map Peripheral.name).zip names).map
      fun x => Part.pointer x.1 x.2).flatMap (Part.definitions s) =
        (included s d).map fun p => .define (CText.wordOf p.name) := by
    have hlength : ((included s d).map Peripheral.name).length ≤ names.length := by
      rw [List.length_map]
      exact Nat.le_of_eq hnames.length_eq
    have hfirst : ((((included s d).map Peripheral.name).zip names).map Prod.fst).map
        (fun name => CText.Definition.define (CText.wordOf name)) =
          (included s d).map fun p => .define (CText.wordOf p.name) := by
      rw [List.map_fst_zip hlength, List.map_map]
      rfl
    rw [List.flatMap_map, ← hfirst, List.map_map]
    exact List.map_eq_flatMap.symm
  have hlines : CText.definitions (parts.flatMap (Part.lines s)) =
      parts.flatMap (Part.definitions s) := by
    rw [CText.definitions_flatMap]
    exact List.flatMap_congr fun p _ => Part.definitions_lines s p
  have hother : Part.otherMacros parts = Part.otherMacros described := by
    rw [Part.otherMacros, hmacros, haccess, Part.otherMacros]
  rw [hlines, htypedefs, hmacros, otherMacros, hother, hparts, List.flatMap_append,
    List.flatMap_append, definitions_front, definitions_back s d _ _ hpointers]
  simp only [List.count_append, List.map_append, hbody]
  omega

/-- After a run over the peripherals that succeeds, the rest of the header does. -/
theorem exists_render_of_run {described : List Part}
    (h : peripherals s d (included s d) {} = .ok (described, w)) :
    ∃ text, render s d = .ok text := by
  have hnames : ∀ ps w described w', peripherals s d ps w = .ok (described, w') →
      ∃ ptrs, (ps.mapM fun p => do
        return Part.pointer p.name (← d.structName p s.commonNames)) = .ok ptrs := by
    intro ps
    induction ps with
    | nil => exact fun _ _ _ _ => ⟨[], rfl⟩
    | cons p ps ih =>
      intro w described w' h
      obtain ⟨here, w₁, rest, hhere, hrest, -⟩ := peripherals_cons_ok h
      obtain ⟨-, name, -, -, -, -, hname, -⟩ := peripheral_ok hhere
      obtain ⟨ptrs, hptrs⟩ := ih _ _ _ hrest
      refine ⟨.pointer p.name name :: ptrs, mapM_eq_ok_iff.2 (.cons ?_ (mapM_eq_ok_iff.1 hptrs))⟩
      exact bind_eq_ok.2 ⟨name, hname, rfl⟩
  obtain ⟨ptrs, hptrs⟩ := hnames _ _ _ _ h
  exact ⟨_, bind_eq_ok.2 ⟨_, bind_eq_ok.2 ⟨_, h, bind_eq_ok.2 ⟨ptrs, hptrs, rfl⟩⟩, rfl⟩⟩

section Existence

variable {group : String} {members : List Member}
  (hsource : d.resolve p = .ok p) (hname : d.structName p s.commonNames = .ok name)
  (hgroup : d.groupName p = .ok group) (hmembers : structMembers s p = .ok members)
  (hmacros : (FieldMacro.ofPeripheral s p []).toOption.isSome = true)

include hsource hname hgroup hmembers hmacros

/-- A first peripheral with registers of its own is written when it has a typedef and field
macros. -/
theorem exists_peripheral_of_new :
    ∃ here macros, peripheral s d p {} = .ok (here, ⟨[(name, p.name)], [p.name], macros⟩) := by
  obtain ⟨⟨fields, macros⟩, hmacros⟩ := Option.isSome_iff_exists.1 hmacros
  obtain ⟨struct, hstruct⟩ :=
    exists_typedef_of_new (p := p) (w := {}) group members rfl hgroup hmembers
  have hfields : Header.fieldMacros s p ⟨[(name, p.name)], [], []⟩ =
      .ok (fields, ⟨[(name, p.name)], [p.name], macros⟩) :=
    bind_eq_ok.2 ⟨_, eq_ok_of_toOption hmacros, rfl⟩
  obtain ⟨here, hhere⟩ := exists_peripheral_of_steps hsource hname hstruct hfields
  exact ⟨here, macros, hhere⟩

/-- A device with one peripheral has a header. -/
theorem exists_render_of_single (hincluded : included s d = [p]) :
    ∃ text, render s d = .ok text := by
  obtain ⟨here, macros, hhere⟩ := exists_peripheral_of_new hsource hname hgroup hmembers hmacros
  have hrun : peripherals s d [p] {} = _ := peripherals_cons_of_ok hhere
  rw [← hincluded] at hrun
  exact exists_render_of_run hrun

/-- Behind a peripheral, one that derives from it and shares its typedef is written too. -/
theorem exists_run_of_derived {q : Peripheral} (hderived : d.resolve q = .ok p)
    (hshared : d.structName q s.commonNames = .ok name) :
    ∃ out, peripherals s d [p, q] {} = .ok out := by
  obtain ⟨here, macros, hhere⟩ := exists_peripheral_of_new hsource hname hgroup hmembers hmacros
  have hstruct : typedef s d q p name ⟨[(name, p.name)], [p.name], macros⟩ =
      .ok ([], ⟨[(name, p.name)], [p.name], macros⟩) := by
    rw [typedef, List.lookup_cons_self]
    exact if_pos rfl
  have hfields : Header.fieldMacros s p ⟨[(name, p.name)], [p.name], macros⟩ =
      .ok ([], ⟨[(name, p.name)], [p.name], macros⟩) :=
    if_pos (List.contains_iff_mem.2 (List.mem_singleton_self _))
  obtain ⟨next, hnext⟩ := exists_peripheral_of_steps hderived hshared hstruct hfields
  rw [peripherals_cons_of_ok hhere, peripherals_cons_of_ok hnext]
  exact ⟨_, rfl⟩

end Existence

/-- A header whose run over the peripherals fails fails with it. -/
theorem render_eq_error_of_run {f : Failure}
    (h : peripherals s d (included s d) {} = .error f) : render s d = .error f := by
  rw [render, Header.parts, h]
  rfl

end Header

end RegisterMap
