import Mathlib
import RegisterMap.Proofs.Derivation
import RegisterMap.Proofs.Header.Definitions

/-!
# Typedefs of a header

A header that is rendered has one typedef for each name that a peripheral's pointer refers to, with
the members for the registers of the peripheral's source (`Header.render_typedefs`). The run over
the peripherals keeps a table from typedef names to sources; what it has written agrees with the
table (`typedefs_peripheral` for one peripheral, `typedefs_peripherals` for the run).
-/

namespace RegisterMap

/-- Where keys are distinct, a key has one entry. -/
theorem filter_fst_eq_singleton {α : Type} {xs : List (String × α)} {n : String} {a : α}
    (hkeys : (xs.map Prod.fst).Nodup) (hx : (n, a) ∈ xs) :
    xs.filter (·.1 == n) = [(n, a)] := by
  induction xs with
  | nil => cases hx
  | cons x xs ih =>
    rw [List.map_cons, List.nodup_cons] at hkeys
    rcases List.mem_cons.1 hx with rfl | hx
    · have hrest : xs.filter (·.1 == n) = [] := by
        refine List.filter_eq_nil_iff.2 fun y hy hname => hkeys.1 ?_
        have hkey := List.mem_map_of_mem (f := Prod.fst) hy
        rwa [eq_of_beq hname] at hkey
      simp [hrest]
    · have hne : (x.1 == n) = false := by
        refine beq_false_of_ne fun e => hkeys.1 ?_
        have hkey := List.mem_map_of_mem (f := Prod.fst) hx
        rwa [← e] at hkey
      rw [List.filter_cons, hne, if_neg Bool.false_ne_true, ih hkeys.2 hx]

/-- What alone is selected from a list is in it, and is what is selected. -/
theorem of_filter_eq_singleton {α : Type} {xs : List α} {f : α → Bool} {x : α}
    (h : xs.filter f = [x]) : x ∈ xs ∧ f x = true := by
  refine List.mem_filter.1 ?_
  rw [h]
  exact List.mem_singleton_self x

namespace Header

open RegisterMap.Part

variable {s : Settings} {d : Device} {p source : Peripheral} {name : String} {w w' : Written}
  {ps : List Peripheral} {new : List Part} {out : List (String × List Member)}

/-! ## What the run over the peripherals writes -/

/-- The typedef has the members for the registers of a peripheral of this name. -/
def TypedefFits (s : Settings) (d : Device) (t : String × List Member) (owner : String) : Prop :=
  ∃ source ∈ d.peripherals, source.name = owner ∧ structMembers s source = .ok t.2

/-- The typedefs written so far are those of the table. -/
abbrev TypedefsWritten (s : Settings) (d : Device) (w : Written)
    (out : List (String × List Member)) : Prop :=
  DefinedBy Prod.fst (TypedefFits s d) w.typedefs out

theorem typedefs_typedef (h : typedef s d p source name w = .ok (new, w'))
    (hsource : source ∈ d.peripherals) (hw : TypedefsWritten s d w out) :
    TypedefsWritten s d w' (out ++ typedefs new) ∧ Extends w.typedefs w'.typedefs ∧
      w'.typedefs.lookup name = some source.name := by
  rcases typedef_ok h with ⟨hlookup, rfl, rfl⟩ |
    ⟨hnone, ⟨first, members, last, hmembers, rfl, -⟩, rfl⟩
  · rw [typedefs_nil, List.append_nil]
    exact ⟨hw, .refl _, hlookup⟩
  · have hfits : TypedefFits s d (name, members) source.name := ⟨source, hsource, rfl, hmembers⟩
    exact ⟨hw.concat hnone hfits, extends_cons hnone _, List.lookup_cons_self⟩

/-- Field macros leave the typedefs alone. -/
theorem typedefs_fieldMacros (h : Header.fieldMacros s source w = .ok (new, w')) :
    typedefs new = [] ∧ pointers new = [] ∧ w'.typedefs = w.typedefs := by
  obtain ⟨htypedefs, -, hpointers⟩ :=
    definitions_of_isFieldPart (isFieldPart_of_mem_fieldMacros h)
  refine ⟨htypedefs, hpointers, ?_⟩
  rcases fieldMacros_ok h with ⟨-, -, rfl⟩ | ⟨-, macros, -, rfl⟩ <;> rfl

/-- The typedef of a peripheral's name is in the table for the peripheral's source. -/
def HasTypedef (s : Settings) (d : Device) (w : Written) (p : Peripheral) : Prop :=
  ∃ source name, d.resolve p = .ok source ∧ d.structName p s.commonNames = .ok name ∧
    w.typedefs.lookup name = some source.name

theorem HasTypedef.mono (h : HasTypedef s d w p) (hw : Extends w.typedefs w'.typedefs) :
    HasTypedef s d w' p := by
  obtain ⟨source, name, hsource, hname, hlookup⟩ := h
  exact ⟨source, name, hsource, hname, hw _ _ hlookup⟩

theorem typedefs_peripheral (h : peripheral s d p w = .ok (new, w')) (hp : p ∈ d.peripherals)
    (hw : TypedefsWritten s d w out) :
    TypedefsWritten s d w' (out ++ typedefs new) ∧ Extends w.typedefs w'.typedefs ∧
      pointers new = [] ∧ HasTypedef s d w' p := by
  obtain ⟨source, name, struct, wₛ, fields, hsource, hname, hstruct, hfields, rfl⟩ :=
    peripheral_ok h
  obtain ⟨hrestTypedefs, -, hrestPointers⟩ := definesNoName_registerMacros s p source
  obtain ⟨hwritten, hextends, hlookup⟩ :=
    typedefs_typedef hstruct (d.mem_of_resolve hp hsource) hw
  obtain ⟨hfieldTypedefs, hfieldPointers, hsame⟩ := typedefs_fieldMacros hfields
  have hstructPointers : pointers struct = [] := by
    rcases typedef_ok hstruct with ⟨-, rfl, -⟩ | ⟨-, ⟨first, members, last, -, rfl, -⟩, -⟩ <;> rfl
  refine ⟨?_, ?_, ?_, source, name, hsource, hname, ?_⟩
  · rw [typedefs_plain, typedefs_append, typedefs_append, hfieldTypedefs, hrestTypedefs,
      List.append_nil, List.append_nil, TypedefsWritten, hsame]
    exact hwritten
  · rw [hsame]
    exact hextends
  · rw [pointers_plain, pointers_append, pointers_append, hstructPointers, hfieldPointers,
      hrestPointers]
    rfl
  · rw [hsame]
    exact hlookup

theorem typedefs_peripherals (h : peripherals s d ps w = .ok (new, w'))
    (hps : ∀ p ∈ ps, p ∈ d.peripherals) (hw : TypedefsWritten s d w out) :
    TypedefsWritten s d w' (out ++ typedefs new) ∧ Extends w.typedefs w'.typedefs ∧
      pointers new = [] ∧ ∀ p ∈ ps, HasTypedef s d w' p := by
  induction ps generalizing w new out with
  | nil =>
    cases h
    rw [typedefs_nil, List.append_nil]
    exact ⟨hw, .refl _, rfl, fun p hp => by cases hp⟩
  | cons p ps ih =>
    obtain ⟨here, w₁, rest, hhere, hrest, rfl⟩ := peripherals_cons_ok h
    obtain ⟨hp, hps⟩ := List.forall_mem_cons.1 hps
    obtain ⟨hwritten, hextends, hpointers, hnow⟩ := typedefs_peripheral hhere hp hw
    obtain ⟨hwritten', hextends', hpointers', hlater⟩ := ih hrest hps hwritten
    refine ⟨?_, hextends.trans hextends', ?_, ?_⟩
    · rw [typedefs_append, ← List.append_assoc]
      exact hwritten'
    · rw [pointers_append, hpointers, hpointers']
      rfl
    · exact List.forall_mem_cons.2 ⟨hnow.mono hextends', hlater⟩

/-! ## The pointers -/

theorem nodup_names_included (hnames : d.HasDistinctNames) :
    ((included s d).map Peripheral.name).Nodup := by
  have hsub : ((d.peripherals.filter fun p => !s.excludes p.name).map Peripheral.name).Nodup :=
    List.Nodup.sublist (List.filter_sublist.map _) hnames
  exact ((List.mergeSort_perm _ _).map Peripheral.name).nodup_iff.2 hsub

/-- Each peripheral has one pointer, of the name of its typedef. -/
theorem pointers_zip {names : List String}
    (hnames : List.Forall₂ (fun p name => d.structName p s.commonNames = .ok name) ps names)
    (hnodup : (ps.map Peripheral.name).Nodup) (hp : p ∈ ps)
    (hname : d.structName p s.commonNames = .ok name) :
    ((ps.map Peripheral.name).zip names).filter (·.1 == p.name) = [(p.name, name)] := by
  have hlength : (ps.map Peripheral.name).length ≤ names.length := by
    rw [List.length_map]
    exact Nat.le_of_eq hnames.length_eq
  refine filter_fst_eq_singleton (by rwa [List.map_fst_zip hlength]) ?_
  clear hnodup hlength
  induction hnames with
  | nil => cases hp
  | cons hq _ ih =>
    rcases List.mem_cons.1 hp with rfl | hp
    · rw [hq] at hname
      cases hname
      exact List.mem_cons_self
    · exact List.mem_cons_of_mem _ (ih hp)

/-! ## The header -/

/-- What the pointer of a peripheral refers to: one typedef, with the members for the registers of
the peripheral's source. -/
theorem exists_typedef_of_mem {parts : List Part} (hnames : d.HasDistinctNames)
    (h : Header.parts s d = .ok parts) (hp : p ∈ included s d)
    (hsource : d.resolve p = .ok source) :
    ∃ name members, d.structName p s.commonNames = .ok name ∧
      structMembers s source = .ok members ∧
      (pointers parts).filter (·.1 == p.name) = [(p.name, name)] ∧
      (typedefs parts).filter (·.1 == name) = [(name, members)] := by
  obtain ⟨described, w, names, hrun, hall, -, htypedefs, -, -, hpointers⟩ := parts_ok h
  obtain ⟨hwritten, -, hnone, hhas⟩ := typedefs_peripherals hrun
    (fun p hp => (mem_included.1 hp).1) (definedBy_nil : TypedefsWritten s d {} [])
  obtain ⟨source', name, hsource', hname, hlookup⟩ := hhas p hp
  rw [hsource] at hsource'
  cases hsource'
  obtain ⟨⟨name', members⟩, hfilter, owner, howner, hownerName, hmembers⟩ :=
    hwritten.exists_of_lookup hlookup
  have hsame : owner = source := hnames.eq_of_name_eq howner
    (d.mem_of_resolve (mem_included.1 hp).1 hsource) hownerName
  have hkey : name' = name := eq_of_beq (of_filter_eq_singleton hfilter).2
  rw [hsame] at hmembers
  rw [hkey, List.nil_append, ← htypedefs] at hfilter
  refine ⟨name, members, hname, hmembers, ?_, hfilter⟩
  rw [hpointers, hnone, List.nil_append]
  exact pointers_zip hall (nodup_names_included hnames) hp hname

theorem resolve_of_parts {parts : List Part} (h : Header.parts s d = .ok parts)
    (hp : p ∈ included s d) : ∃ source, d.resolve p = .ok source := by
  obtain ⟨described, w, names, hrun, -⟩ := parts_ok h
  obtain ⟨-, -, -, hhas⟩ := typedefs_peripherals hrun
    (fun p hp => (mem_included.1 hp).1) (definedBy_nil : TypedefsWritten s d {} [])
  obtain ⟨source, name, hsource, -⟩ := hhas p hp
  exact ⟨source, hsource⟩

/-- The lines have the structure of a typedef, with these members. -/
def HasStruct (name : String) (members : List Member) (lines : List String) : Prop :=
  ∃ before after, lines = before ++
    (typedefLine name :: Member.linesOf 3 members ++ [s!"\x7d {name}_Type;"]) ++ after

theorem hasStruct_of_mem {parts : List Part} {members : List Member}
    (h : (name, members) ∈ typedefs parts) :
    HasStruct name members (parts.flatMap (Part.lines s)) := by
  obtain ⟨part, hpart, heq⟩ := List.mem_filterMap.1 h
  have htypedef : part = .typedef name members := by
    cases part <;> cases heq
    rfl
  obtain ⟨before, after, rfl⟩ := List.append_of_mem (htypedef ▸ hpart)
  refine ⟨before.flatMap (Part.lines s), "" :: after.flatMap (Part.lines s), ?_⟩
  simp [Part.lines_typedef]

theorem typedefLine_inj {n m : String} : typedefLine n = typedefLine m ↔ n = m := by
  unfold typedefLine
  rw [← String.toList_inj, ← String.toList_inj]
  simp [ToString.toString]

/-- A structure is opened once for each typedef. -/
theorem count_typedefLine {parts : List Part} (h : Header.parts s d = .ok parts) (name : String) :
    (parts.flatMap (Part.lines s)).count (typedefLine name) =
      ((typedefs parts).filter (·.1 == name)).length := by
  have hfields : (fieldDefinitions s (Part.fieldMacros parts)).count
      (.struct (typedefLine name)) = 0 := by
    refine List.count_eq_zero.2 fun hmem => ?_
    obtain ⟨m, -, hm⟩ := List.mem_flatMap.1 hmem
    simp at hm
  have hother : ((otherMacros s d parts).map fun name =>
      CText.Definition.define (CText.wordOf name)).count (.struct (typedefLine name)) = 0 := by
    refine List.count_eq_zero.2 fun hmem => ?_
    obtain ⟨n, -, hn⟩ := List.mem_map.1 hmem
    cases hn
  rw [← CText.count_definitions_struct (definition?_typedefLine name), count_definitions_parts h,
    hfields, hother, ← List.countP_eq_length_filter, List.count, List.countP_map]
  refine List.countP_congr fun t _ => ?_
  simp [typedefLine_inj]

theorem count_typedefLine_of_filter {parts : List Part} {members : List Member}
    (h : Header.parts s d = .ok parts)
    (hone : (typedefs parts).filter (·.1 == name) = [(name, members)]) :
    (parts.flatMap (Part.lines s)).count (typedefLine name) = 1 := by
  rw [count_typedefLine h, hone, List.length_singleton]

private def serial : Peripheral :=
  { name := "UART0", baseAddress := 0x1000, headerStructName := some "UART",
    registers := [.register (.plain "D" 0 8)] }

private def secondSerial : Peripheral :=
  { name := "UART1", baseAddress := 0x2000, headerStructName := some "UART",
    derivedFrom := some "UART0" }

/-- A UART, a second one with its registers, and a core peripheral that is left out. -/
private def serials : Device where
  name := "K10"
  peripherals := [serial, secondSerial,
    { name := "SCB", baseAddress := 0xE000ED00, registers := [.register (.plain "CPUID" 0 32)] }]

end Header

end RegisterMap
