import Mathlib
import RegisterMap.Proofs.Header.Paths
import RegisterMap.Proofs.Header.Typedefs
import RegisterMap.Proofs.Layout.Declarable

/-!
# Register macros of a header

Every register macro of a rendered header leads to a member that the typedef of its peripheral
declares (`Header.render_accessMacros`): members and macros are made by two walks over the same
elements, and both take C arrays, single elements and clusters apart in the same way
(`AccessMacro.denotes_of_mem_ofElement`).
-/

namespace RegisterMap

open CText Member

namespace AccessMacro

variable {bytePadding : Bool} {s : Settings} {peripheral : String} {ms : List Member}
  {ls : List Decl}

theorem isWithin_none {name : String} (count : Option Nat) : Step.IsWithin ⟨name, none⟩ count :=
  nofun

theorem isWithin_some {name : String} {i n : Nat} (h : i < n) :
    Step.IsWithin ⟨name, some i⟩ (some n) := by
  rintro _ ⟨⟩
  exact ⟨n, rfl, h⟩

/-- The steps to a register lead to its leaves. -/
theorem denotes_of_mem_ofRegister {r : Register} (h : (Element.register r).Leaves ls)
    (hms : Exposes bytePadding ms ls) {a : Accessor} (ha : a ∈ ofRegister r) :
    Denotes ms [a.2.sanitized] := by
  unfold ofRegister at ha
  cases h with
  | register hwhole =>
    -- the register is one member
    obtain ⟨m, hm, hrep⟩ := hms _ (List.mem_singleton_self _)
    have hdeclared := hrep.declared_register
    cases hd : r.dim with
    | none =>
      rw [hd] at ha hdeclared
      cases List.mem_singleton.1 ha
      exact .of_identifier _ hm hdeclared (isWithin_none _)
    | some d =>
      have hwhole : r.isDeclaredAsArray = true := hwhole.resolve_left (by simp [hd])
      simp only [hd, hwhole, if_true] at ha hdeclared
      obtain ⟨i, hi, rfl⟩ := List.mem_map.1 ha
      exact .of_identifier _ hm hdeclared (isWithin_some (List.mem_range.1 hi))
  | @array _ d hd hapart =>
    -- each element of the array is a member
    simp only [hd, hapart, Bool.false_eq_true, if_false] at ha
    obtain ⟨i, hi, rfl⟩ := List.mem_map.1 ha
    obtain ⟨m, hm, hrep⟩ := hms _ (List.mem_map_of_mem hi)
    have hdeclared := hrep.declared_element
    rw [hd] at hdeclared
    exact .of_identifier _ hm hdeclared (isWithin_none _)

/-- The steps into a cluster lead to one element of it. -/
theorem enters_of_mem_instances {c : Cluster} {x : String × Step} (hx : x ∈ instances c) :
    x.2.name = c.baseName ∧ x.2.IsWithin (c.dim.map Dim.count) ∧
      x.2.index.isSome = (c.dim.map Dim.count).isSome := by
  unfold instances at hx
  cases hd : c.dim with
  | none =>
    rw [hd] at hx
    cases List.mem_singleton.1 hx
    exact ⟨rfl, isWithin_none _, rfl⟩
  | some d =>
    rw [hd] at hx
    obtain ⟨i, hi, rfl⟩ := List.mem_map.1 hx
    exact ⟨rfl, isWithin_some (List.mem_range.1 hi), rfl⟩

theorem visible?_eq_some_iff {e : Element} {r : Register} :
    visible? e = some r ↔ e = .register r ∧ r.flags.hidden = false := by
  cases e with
  | register t =>
    cases h : t.flags.hidden <;> simp [visible?, h]
    · rintro rfl
      exact h
    · rintro rfl
      exact h
  | cluster c es => simp [visible?]

/-- The paths into a cluster lead to it, or to registers in one element of it. -/
theorem denotes_of_mem_ofCluster {c : Cluster} {es : List Element}
    (h : (Element.cluster c es).Leaves ls) (hms : Exposes bytePadding ms ls) {m : AccessMacro}
    (hm : m ∈ ofCluster s peripheral c es) : Denotes ms (m.path.map Step.sanitized) := by
  cases h with
  | @cluster _ _ members inner hchildren hperm =>
    obtain ⟨m', hmember, hrep⟩ := hms _ (List.mem_singleton_self _)
    obtain ⟨note, ns, gaps, gaps', hns, rfl⟩ := hrep.exists_cluster
    unfold ofCluster at hm
    split at hm
    · cases List.mem_singleton.1 hm
      exact .of_identifier ⟨c.baseName, none⟩ hmember rfl (isWithin_none _)
    · obtain ⟨⟨index, step⟩, hstep, hm⟩ := List.mem_flatMap.1 hm
      obtain ⟨⟨name, last⟩, hlast, hm⟩ := List.mem_filterMap.1 hm
      obtain ⟨r, hr, hlast⟩ := List.mem_flatMap.1 hlast
      obtain ⟨e, he, hvisible⟩ := List.mem_filterMap.1 hr
      obtain ⟨rfl, hshown⟩ := visible?_eq_some_iff.1 hvisible
      have he := (Element.sortLevel_perm es).mem_iff.1 he
      obtain ⟨here, hhere, hsub⟩ := hchildren.exists_of_mem he hshown
      -- what the cluster declares can be entered by the leaves of the register
      have hexposes : Exposes bytePadding ns here := fun l hl =>
        (names_ofDecls gaps members _ hns).exposes l (hperm.mem_iff.2 (hsub l hl))
      have hdenotes := denotes_of_mem_ofRegister hhere hexposes hlast
      obtain ⟨hname, hwithin, hsingle⟩ := enters_of_mem_instances hstep
      rw [← hname] at hmember
      have hpath : Denotes ms [step.sanitized, last.sanitized] :=
        .inside hmember hwithin hsingle hdenotes
      simp only at hm
      split at hm
      · cases hm
      · cases hm
        exact hpath

/-- The paths of an element lead to its leaves. -/
theorem denotes_of_mem_ofElement {e : Element} (h : e.Leaves ls) (hms : Exposes bytePadding ms ls)
    {m : AccessMacro} (hm : m ∈ ofElement s peripheral e) :
    Denotes ms (m.path.map Step.sanitized) := by
  unfold ofElement at hm
  split at hm
  · cases hm
  · cases e with
    | register r =>
      obtain ⟨a, ha, rfl⟩ := List.mem_map.1 hm
      exact denotes_of_mem_ofRegister h hms ha
    | cluster c es => exact denotes_of_mem_ofCluster h hms hm

theorem not_hidden_of_mem_ofElement {e : Element} {m : AccessMacro}
    (hm : m ∈ ofElement s peripheral e) : e.flags.hidden = false := by
  unfold ofElement at hm
  cases he : e.flags.hidden with
  | true =>
    rw [he, if_pos rfl] at hm
    cases hm
  | false => rfl

/-- The macros of an element name the peripheral. -/
theorem peripheral_of_mem_ofElement {e : Element} {m : AccessMacro}
    (hm : m ∈ ofElement s peripheral e) : m.peripheral = peripheral := by
  unfold ofElement at hm
  split at hm
  · cases hm
  · cases e with
    | register r =>
      obtain ⟨a, ha, rfl⟩ := List.mem_map.1 hm
      rfl
    | cluster c es =>
      replace hm : m ∈ ofCluster s peripheral c es := hm
      unfold ofCluster at hm
      split at hm
      · cases List.mem_singleton.1 hm
        rfl
      · obtain ⟨x, -, hm⟩ := List.mem_flatMap.1 hm
        obtain ⟨y, -, hm⟩ := List.mem_filterMap.1 hm
        simp only at hm
        split at hm
        · cases hm
        · cases hm
          rfl

/-- In the structure of a peripheral, the path of each of its macros denotes a member once its
names are made identifiers, and does as it stands if they are identifiers. -/
theorem denotes_of_structMembers {source : Peripheral}
    (h : Header.structMembers s source = .ok ms) {e : Element} (he : e ∈ source.registers)
    {m : AccessMacro} (hm : m ∈ ofElement s peripheral e) :
    Denotes ms (m.path.map Step.sanitized) ∧
      (Denotes ms m.path ↔ ∀ step ∈ m.path, IsIdentifier step.name) := by
  obtain ⟨decls, hdecls, h⟩ := bind_eq_ok.1 h
  obtain ⟨x, hx, h⟩ := bind_eq_ok.1 h
  cases h
  have hnames := names_ofDecls 0 decls x hx
  obtain ⟨ls, hls, hperm⟩ :=
    Layout.leavesAll_of_layout hdecls fun e _ => Layout.leaves_of_declare e
  obtain ⟨here, hhere, hsub⟩ := hls.exists_of_mem he (not_hidden_of_mem_ofElement hm)
  have hexposes : Exposes s.bytePadding x.1 here := fun l hl =>
    hnames.exposes l (hperm.mem_iff.2 (hsub l hl))
  have hsanitized := denotes_of_mem_ofElement hhere hexposes hm
  refine ⟨hsanitized, fun hdenotes => forall_of_denotes hdenotes hnames.identifiers, fun h => ?_⟩
  have hsame : m.path.map Step.sanitized = m.path := by
    refine (List.map_congr_left fun step hstep => ?_).trans (List.map_id _)
    show { step with name := identifier step.name } = step
    rw [h step hstep]
  rwa [hsame] at hsanitized

end AccessMacro

/-! ## Which macros a header has -/

namespace Header

open RegisterMap.Part

variable {s : Settings} {d : Device} {p source : Peripheral} {name : String} {w w' : Written}
  {ps : List Peripheral} {new : List Part}

/-- The register macros are those of the elements of the peripherals' sources, if the settings ask
for them. -/
def MacrosOf (s : Settings) (d : Device) (ps : List Peripheral) (new : List Part) : Prop :=
  ∀ m, accessMacro m ∈ new ↔ s.registerMacros = true ∧ ∃ p ∈ ps, ∃ source,
    d.resolve p = .ok source ∧ ∃ e ∈ source.registers, m ∈ AccessMacro.ofElement s p.name e

theorem mem_ofPeripheral_iff {m : AccessMacro} :
    accessMacro m ∈ AccessMacro.ofPeripheral s p source ↔
      ∃ e ∈ source.registers, m ∈ AccessMacro.ofElement s p.name e := by
  simp only [AccessMacro.ofPeripheral, List.mem_cons, List.mem_map, List.mem_flatMap,
    (Element.sortLevel_perm source.registers).mem_iff, Part.accessMacro.injEq, exists_eq_right,
    reduceCtorEq, false_or]

/-- Neither the typedef of a peripheral nor its field macros are register macros. -/
theorem accessMacros_peripheral (h : peripheral s d p w = .ok (new, w')) :
    ∃ source, d.resolve p = .ok source ∧
      accessMacros new = accessMacros (registerMacros s p source) := by
  obtain ⟨source, name, struct, wₛ, fields, hsource, -, hstruct, hfields, rfl⟩ := peripheral_ok h
  obtain ⟨-, hnone, -⟩ := definitions_of_isFieldPart (isFieldPart_of_mem_fieldMacros hfields)
  have htypedef : accessMacros struct = [] := by
    rcases typedef_ok hstruct with ⟨-, rfl, -⟩ | ⟨-, ⟨first, members, last, -, rfl, -⟩, -⟩ <;> rfl
  refine ⟨source, hsource, ?_⟩
  rw [accessMacros_plain, accessMacros_append, accessMacros_append, htypedef, hnone,
    List.nil_append, List.nil_append]

theorem macrosOf_peripheral (h : peripheral s d p w = .ok (new, w')) : MacrosOf s d [p] new := by
  obtain ⟨source, hsource, hmacros⟩ := accessMacros_peripheral h
  intro m
  rw [← mem_accessMacros, hmacros, mem_accessMacros, registerMacros]
  cases s.registerMacros <;> simp [hsource, mem_ofPeripheral_iff]

theorem macrosOf_peripherals (h : peripherals s d ps w = .ok (new, w')) : MacrosOf s d ps new := by
  induction ps generalizing w new with
  | nil =>
    cases h
    simp [MacrosOf]
  | cons p ps ih =>
    obtain ⟨here, w₁, rest, hhere, hrest, rfl⟩ := peripherals_cons_ok h
    intro m
    rw [List.mem_append, macrosOf_peripheral hhere m, ih hrest m, ← and_or_left]
    simp only [List.mem_cons, or_and_right, exists_or, exists_eq_left, List.not_mem_nil, or_false]

theorem macrosOf_parts {parts : List Part} (h : Header.parts s d = .ok parts) :
    MacrosOf s d (included s d) parts := by
  obtain ⟨described, w, names, hrun, -, -, -, -, hmacros, -⟩ := parts_ok h
  intro m
  rw [← macrosOf_peripherals hrun m, ← mem_accessMacros, hmacros, mem_accessMacros]

/-- The line of a register macro: its name, and the pointer with the path behind it. -/
def accessLine (m : AccessMacro) : String :=
  let path := ".".intercalate (m.path.map fun step => declarator step.name step.index)
  s!"#define {Text.padEnd 30 m.name} ({m.peripheral}->{path})"

theorem accessLine_mem {parts : List Part} {m : AccessMacro} (hm : accessMacro m ∈ parts) :
    accessLine m ∈ parts.flatMap (Part.lines s) :=
  List.mem_flatMap.2 ⟨_, hm, List.mem_singleton_self _⟩

theorem pointerLine_mem {parts : List Part} {peripheral : String}
    (h : (peripheral, name) ∈ pointers parts) :
    pointerLine peripheral name ∈ parts.flatMap (Part.lines s) := by
  obtain ⟨part, hpart, heq⟩ := List.mem_filterMap.1 h
  have hpointer : part = .pointer peripheral name := by
    cases part <;> cases heq
    rfl
  refine List.mem_flatMap.2 ⟨part, hpart, ?_⟩
  rw [hpointer, lines_pointer]
  exact List.mem_singleton_self _

/-- **Register macros.** A rendered header has one pointer for the peripheral that a register macro
names, which refers to one typedef, and its lines have the macro, the pointer and the typedef's
structure. In the members of this typedef the path of the macro denotes a member, with subscripts in
range, once its names are made identifiers as those of members are; the path denotes one as it
stands exactly when its names are identifiers already. -/
theorem render_accessMacros {text : String} (hnames : d.HasDistinctNames)
    (hrender : render s d = .ok text) :
    ∃ parts lines, Header.parts s d = .ok parts ∧ text = Part.text s parts ∧
      Header.lines s d = .ok lines ∧ text = Text.ended lines ∧
      ∀ m, accessMacro m ∈ parts → ∃ name members,
        (pointers parts).filter (·.1 == m.peripheral) = [(m.peripheral, name)] ∧
        (typedefs parts).filter (·.1 == name) = [(name, members)] ∧
        accessLine m ∈ lines ∧ pointerLine m.peripheral name ∈ lines ∧
        HasStruct name members lines ∧ lines.count (typedefLine name) = 1 ∧
        Denotes members (m.path.map Step.sanitized) ∧
        (Denotes members m.path ↔ ∀ step ∈ m.path, IsIdentifier step.name) := by
  obtain ⟨parts, hparts, htext⟩ := bind_eq_ok.1 hrender
  cases htext
  refine ⟨parts, parts.flatMap (Part.lines s), hparts, rfl, bind_eq_ok.2 ⟨parts, hparts, rfl⟩, rfl,
    fun m hm => ?_⟩
  have hline := accessLine_mem (s := s) hm
  obtain ⟨-, p, hp, source, hsource, e, he, hm⟩ := (macrosOf_parts hparts m).1 hm
  obtain ⟨name, members, -, hmembers, hpointer, htypedef⟩ :=
    exists_typedef_of_mem hnames hparts hp hsource
  rw [AccessMacro.peripheral_of_mem_ofElement hm]
  exact ⟨name, members, hpointer, htypedef, hline,
    pointerLine_mem (of_filter_eq_singleton hpointer).1,
    hasStruct_of_mem (of_filter_eq_singleton htypedef).1,
    count_typedefLine_of_filter hparts htypedef,
    AccessMacro.denotes_of_structMembers hmembers he hm⟩

section Example

private def value : Register := .plain "VAL" 0 32

private def pair : Cluster :=
  { name := "CH,@pC@i@f", dim := some (.counted 16 2) }

/-- A register whose name is no identifier. -/
private def high : Register := .plain "CNT-HI" 32 16

private def upCounter : Peripheral where
  name := "TIM"
  baseAddress := 0x1000
  registers := [.cluster pair [.register value], .register high]

private def counting : Device where
  name := "K10"
  peripherals := [upCounter]

private def withMacros : Settings := { registerMacros := true, commonNames := false }

private def upCounterMembers : List Member :=
  [.nested (.cluster "CH" (some 2)) ⟨0, "(size=0x0020, 32)"⟩
      [.word "__IO" .word32 "VAL" none (some ⟨0, ""⟩),
        .word "__I" .word32 "RESERVED0" (some 3) none],
    .word "__IO" .word16 "CNT_HI" none (some ⟨32, ""⟩)]

private theorem structMembers_upCounter :
    structMembers withMacros upCounter = .ok upCounterMembers := by
  have hlayout : layout upCounter.registers = .ok [.cluster pair 0 32
      [.register value 0, .reserved 4 12], .register high 32] := by cbv
  rw [structMembers, hlayout]
  rfl

private theorem exists_render_counting : ∃ text, render withMacros counting = .ok text := by
  have hname : counting.structName upCounter false = .ok "TIM" := by cbv
  have hgroup : counting.groupName upCounter = .ok "TIM" := by cbv
  have hmacros : (FieldMacro.ofPeripheral withMacros upCounter []).toOption.isSome = true := by cbv
  exact exists_render_of_single rfl hname hgroup structMembers_upCounter hmacros
    (List.mergeSort_singleton _)

/-- The macro for the register in the second element of the cluster. -/
private def secondValue : AccessMacro := ⟨"TIM_C1VAL", "TIM", [⟨"CH", some 1⟩, ⟨"VAL", none⟩]⟩

private def highMacro : AccessMacro := ⟨"TIM_CNT-HI", "TIM", [⟨"CNT-HI", none⟩]⟩

private theorem included_counting : upCounter ∈ included withMacros counting :=
  mem_included.2 ⟨List.mem_singleton_self _, by decide⟩

private theorem distinct_counting : counting.HasDistinctNames :=
  List.nodup_iff_pairwise_ne.2 (by decide)

private theorem mem_ofElement_pair : secondValue ∈
    AccessMacro.ofElement withMacros "TIM" (.cluster pair [.register value]) := by
  have hmacros : AccessMacro.ofElement withMacros "TIM" (.cluster pair [.register value]) =
      [⟨"TIM_C0VAL", "TIM", [⟨"CH", some 0⟩, ⟨"VAL", none⟩]⟩, secondValue] := by cbv
  rw [hmacros]
  exact List.mem_cons_of_mem _ (List.mem_singleton_self _)

private theorem mem_ofElement_high :
    highMacro ∈ AccessMacro.ofElement withMacros "TIM" (.register high) := by
  have hmacros : AccessMacro.ofElement withMacros "TIM" (.register high) = [highMacro] := by cbv
  rw [hmacros]
  exact List.mem_singleton_self _

private theorem mem_parts_counting {parts : List Part}
    (hparts : Header.parts withMacros counting = .ok parts) {e : Element}
    (he : e ∈ upCounter.registers) {m : AccessMacro}
    (hm : m ∈ AccessMacro.ofElement withMacros "TIM" e) : accessMacro m ∈ parts :=
  (macrosOf_parts hparts m).2 ⟨rfl, upCounter, included_counting, upCounter, rfl, e, he, hm⟩

theorem render_accessMacros_counting :
    ∃ text, render withMacros counting = .ok text ∧
      ∃ parts lines, Header.parts withMacros counting = .ok parts ∧
        text = Part.text withMacros parts ∧ text = Text.ended lines ∧
        accessMacro secondValue ∈ parts ∧
        "#define TIM_C1VAL                      (TIM->CH[1].VAL)" ∈ lines ∧
        ∃ name members, (pointers parts).filter (·.1 == "TIM") = [("TIM", name)] ∧
          (typedefs parts).filter (·.1 == name) = [(name, members)] ∧
          HasStruct name members lines ∧
          Denotes members [⟨"CH", some 1⟩, ⟨"VAL", none⟩] := by
  obtain ⟨text, hrender⟩ := exists_render_counting
  obtain ⟨parts, lines, hparts, htext, -, hended, hall⟩ :=
    render_accessMacros distinct_counting hrender
  have hm := mem_parts_counting hparts List.mem_cons_self mem_ofElement_pair
  obtain ⟨name, members, hpointer, htypedef, hline, -, hstruct, -, -, hdenotes⟩ := hall _ hm
  have hwritten : "#define TIM_C1VAL                      (TIM->CH[1].VAL)" =
      accessLine secondValue := by decide +kernel
  exact ⟨text, hrender, parts, lines, hparts, htext, hended, hm, hwritten ▸ hline, name, members,
    hpointer, htypedef, hstruct, hdenotes.2 (by decide)⟩

/-- The macro of the other register names it as the description does, the member as C can. -/
theorem not_denotes_counting :
    ∃ text, render withMacros counting = .ok text ∧
      ∃ parts, Header.parts withMacros counting = .ok parts ∧
        text = Part.text withMacros parts ∧ accessMacro highMacro ∈ parts ∧
        "#define TIM_CNT-HI                     (TIM->CNT-HI)" ∈
          parts.flatMap (Part.lines withMacros) ∧
        ∃ name, (pointers parts).filter (·.1 == "TIM") = [("TIM", name)] ∧
          (typedefs parts).filter (·.1 == name) = [(name, upCounterMembers)] ∧
          ¬Denotes upCounterMembers [⟨"CNT-HI", none⟩] := by
  obtain ⟨text, hrender⟩ := exists_render_counting
  obtain ⟨parts, hparts, htext⟩ := bind_eq_ok.1 hrender
  cases htext
  have he : .register high ∈ upCounter.registers := List.mem_cons_of_mem _ List.mem_cons_self
  obtain ⟨name, members, -, hmembers, hpointer, htypedef⟩ :=
    exists_typedef_of_mem distinct_counting hparts included_counting rfl
  rw [structMembers_upCounter] at hmembers
  cases hmembers
  have hdenotes :=
    AccessMacro.denotes_of_structMembers structMembers_upCounter he mem_ofElement_high
  have hm := mem_parts_counting hparts he mem_ofElement_high
  have hwritten :
      "#define TIM_CNT-HI                     (TIM->CNT-HI)" = accessLine highMacro := by
    decide +kernel
  refine ⟨_, hrender, parts, hparts, rfl, hm, hwritten ▸ accessLine_mem hm, name, hpointer,
    htypedef, fun h => ?_⟩
  exact absurd (hdenotes.2.1 h ⟨"CNT-HI", none⟩ (List.mem_singleton_self _)) (by decide)

end Example

end Header

end RegisterMap
