import RegisterMap.Proofs.Header.FieldLines
import RegisterMap.Proofs.Layout.Places

/-!
# Declared registers with field macros

Which registers with field macros the typedef of their peripheral declares
(`Header.render_declares`). Macros are written for every register of a tree that is not hidden
itself, while the structure leaves out what hidden clusters hold: a register below a hidden cluster
has macros and no member.
-/

namespace RegisterMap

/-! ## Members for registers -/

namespace Member

open CText

/-- A structure with these members has one for the register, or one for each element of it, inside
the members for the clusters. -/
inductive Holds : List Member → List Cluster → Register → Prop
  | register {ms : List Member} {m : Member} {r : Register}
      (whole : r.dim = none ∨ r.isDeclaredAsArray = true) (mem : m ∈ exposedAll ms)
      (declared : m.declared? = some (match r.dim with
        | none => (identifier r.name, none)
        | some d => (identifier r.baseName, some d.count))) : Holds ms [] r
  | elements {ms : List Member} {r : Register} {d : Dim} (dim_eq : r.dim = some d)
      (apart : r.isDeclaredAsArray = false) (some_element : 0 < d.count)
      (mem : ∀ i < d.count, ∃ m ∈ exposedAll ms,
        m.declared? = some (identifier (elementName r.name r.dim i), none)) : Holds ms [] r
  | inside {ms inner : List Member} {c : Cluster} {cs : List Cluster} {r : Register} {note : Note}
      (mem : nested (.cluster (identifier c.baseName) (c.dim.map Dim.count)) note inner ∈
        exposedAll ms) (child : Holds inner cs r) : Holds ms (c :: cs) r

/-- The structure for declarations has members for the registers that they hold. -/
theorem holds_of_ofDecls {bytePadding : Bool} {ds : List Decl} {cs : List Cluster} {r : Register}
    (h : Decl.Holds ds cs r) {gaps gaps' : Nat} {ms : List Member}
    (hms : ofDecls bytePadding gaps ds = .ok (ms, gaps')) : Holds ms cs r := by
  induction h generalizing gaps gaps' ms with
  | register hwhole mem =>
    obtain ⟨m, hm, hrep⟩ := (names_ofDecls gaps _ _ hms).exposes _ mem
    exact .register hwhole hm hrep.declared_register
  | elements hd hapart hsome mem =>
    refine .elements hd hapart hsome fun i hi => ?_
    obtain ⟨o, hmem⟩ := mem i hi
    obtain ⟨m, hm, hrep⟩ := (names_ofDecls gaps _ _ hms).exposes _ hmem
    exact ⟨m, hm, hrep.declared_element⟩
  | inside mem _ ih =>
    obtain ⟨m, hm, hrep⟩ := (names_ofDecls gaps _ _ hms).exposes _ mem
    obtain ⟨note, inner, gaps₁, gaps₂, hinner, rfl⟩ := hrep.exists_cluster
    exact .inside hm (ih hinner)

end Member

namespace Header

open FieldMacro RegisterMap.Part

variable {s : Settings} {d : Device} {p source : Peripheral} {w w' : Written}
  {ps : List Peripheral} {new parts : List Part} {m : FieldMacro} {r : Register}
  {cs : List Cluster}

/-! ## Which registers with macros are declared -/

theorem not_hidden_of_isDescribed (h : isDescribed r = true) : r.flags.hidden = false := by
  unfold isDescribed at h
  simpa using (Bool.and_eq_true_iff.1 h).1

/-- **Registers with field macros.** Each field macro of a rendered header, whose lines tell its
mask and position, is for a field that the header describes, of a register at some place in the
source of a peripheral. The peripheral has one pointer, which refers to one typedef, with the
members for the layout of the source; both are in the lines. The layout declares the register at its
place exactly if no cluster above it is hidden and it is no array without members, and what it
declares the typedef has a member for. -/
theorem render_declares {text : String} (hnames : d.HasDistinctNames)
    (hrender : render s d = .ok text) :
    ∃ parts lines, Header.parts s d = .ok parts ∧ text = Part.text s parts ∧
      Header.lines s d = .ok lines ∧ text = Text.ended lines ∧
      (∀ m ∈ Part.fieldMacros parts, HasBits s m.name m.offset m.width lines ∧
        ∃ source r f, Describes s d source r f ∧
          IsFor s source r f m ∧ ∃ cs, Element.Holds source.registers cs r) ∧
      ∀ p ∈ d.peripherals, s.excludes p.name = false →
        ∃ source name decls members, d.resolve p = .ok source ∧
          layout source.registers = .ok decls ∧
          Member.ofLayout s.bytePadding decls = .ok members ∧
          (pointers parts).filter (·.1 == p.name) = [(p.name, name)] ∧
          (typedefs parts).filter (·.1 == name) = [(name, members)] ∧
          pointerLine p.name name ∈ lines ∧ HasStruct name members lines ∧
          lines.count (typedefLine name) = 1 ∧
          ∀ cs r, Element.Holds source.registers cs r → isDescribed r = true →
            (Decl.Holds decls cs r ↔
              (∀ c ∈ cs, c.flags.hidden = false) ∧ ¬r.HasNoMember) ∧
            (Decl.Holds decls cs r → Member.Holds members cs r) := by
  obtain ⟨parts, hparts, htext⟩ := bind_eq_ok.1 hrender
  cases htext
  refine ⟨parts, parts.flatMap (Part.lines s), hparts, rfl, bind_eq_ok.2 ⟨parts, hparts, rfl⟩, rfl,
    fun m hm => ⟨hasBits_of_mem hm, ?_⟩, fun p hp hkept => ?_⟩
  · obtain ⟨source, r, f, hdescribes, hfor⟩ := traced_parts hparts m hm
    exact ⟨source, r, f, hdescribes, hfor, Element.mem_registersAll_iff_holds.1 hdescribes.2.1⟩
  · have hmem : p ∈ included s d := mem_included.2 ⟨hp, hkept⟩
    obtain ⟨source, hsource⟩ := resolve_of_parts hparts hmem
    obtain ⟨name, members, -, hstruct, hpointer, htypedef⟩ :=
      exists_typedef_of_mem hnames hparts hmem hsource
    obtain ⟨decls, hdecls, hmembers⟩ := bind_eq_ok.1 hstruct
    refine ⟨source, name, decls, members, hsource, hdecls, hmembers, hpointer, htypedef,
      pointerLine_mem (of_filter_eq_singleton hpointer).1,
      hasStruct_of_mem (of_filter_eq_singleton htypedef).1,
      count_typedefLine_of_filter hparts htypedef, fun cs r hr hdescribed => ⟨?_, fun h => ?_⟩⟩
    · rw [Layout.holds_iff hdecls]
      simp only [hr, not_hidden_of_isDescribed hdescribed, true_and]
    · obtain ⟨⟨ms, gaps⟩, hms, hmembers⟩ := bind_eq_ok.1 hmembers
      cases hmembers
      exact Member.holds_of_ofDecls h hms

section Example

private def enable : Field := { name := "EN", bitOffset := 0, bitWidth := 1 }

private def traceControl : Register := { Register.plain "CTRL" 0 32 with fields := [enable] }

private def identity : Register := .plain "ID" 4 32

private def trace (hidden : Bool) : Cluster := { name := "TRACE", flags := { hidden } }

private def tracePort (hidden : Bool) : Peripheral where
  name := "TPIU"
  baseAddress := 0x1000
  registers := [.cluster (trace hidden) [.register traceControl], .register identity]

/-- A device with a register in a cluster, which may be hidden. -/
private def tracing (hidden : Bool) : Device where
  name := "K10"
  peripherals := [tracePort hidden]

private def plainly : Settings := { commonNames := false }

private def identityMember : Member := .word "__IO" .word32 "ID" none (some ⟨4, ""⟩)

private def tracePortMembers : (hidden : Bool) → List Member
  | false => [.nested (.cluster "TRACE" none) ⟨0, "(size=0x0004, 4)"⟩
      [.word "__IO" .word32 "CTRL" none (some ⟨0, ""⟩)], identityMember]
  | true => [.word "__I" .word32 "RESERVED0" none none, identityMember]

private theorem structMembers_tracePort (hidden : Bool) :
    structMembers plainly (tracePort hidden) = .ok (tracePortMembers hidden) := by
  have hlayout : layout (tracePort hidden).registers = .ok (match hidden with
    | false => [.cluster (trace false) 0 4 [.register traceControl 0], .register identity 4]
    | true => [.reserved 0 4, .register identity 4]) := by
    cases hidden <;> cbv
  rw [structMembers, hlayout]
  cases hidden <;> rfl

private theorem exists_render_tracing (hidden : Bool) :
    ∃ text, render plainly (tracing hidden) = .ok text := by
  have hname : (tracing hidden).structName (tracePort hidden) false = .ok "TPIU" := by
    cases hidden <;> cbv
  have hgroup : (tracing hidden).groupName (tracePort hidden) = .ok "TPIU" := by
    cases hidden <;> cbv
  have hmacros :
      (FieldMacro.ofPeripheral plainly (tracePort hidden) []).toOption.isSome = true := by
    cases hidden <;> cbv
  have hincluded : included plainly (tracing hidden) = [tracePort hidden] := by
    cases hidden <;> exact List.mergeSort_singleton _
  exact exists_render_of_single (by cases hidden <;> rfl) hname hgroup
    (structMembers_tracePort hidden) hmacros hincluded

private theorem distinct_tracing (hidden : Bool) : (tracing hidden).HasDistinctNames :=
  List.nodup_iff_pairwise_ne.2 (by simp [tracing])

private theorem describes_tracing (hidden : Bool) :
    Describes plainly (tracing hidden) (tracePort hidden) traceControl enable := by
  refine ⟨⟨tracePort hidden, List.mem_singleton_self _, rfl, rfl⟩, ?_, rfl, [enable], rfl,
    List.mem_singleton_self _⟩
  exact Element.mem_registersAll_iff.2
    ⟨_, List.mem_cons_self, Element.mem_registersAll_of_mem List.mem_cons_self⟩

private theorem holds_tracePort (hidden : Bool) :
    Element.Holds (tracePort hidden).registers [trace hidden] traceControl :=
  .inside List.mem_cons_self (.here List.mem_cons_self)

theorem render_declares_tracing :
    ∃ text, render plainly (tracing false) = .ok text ∧
      ∃ parts lines, Header.parts plainly (tracing false) = .ok parts ∧
        text = Part.text plainly parts ∧ text = Text.ended lines ∧
        ∃ name members, (pointers parts).filter (·.1 == "TPIU") = [("TPIU", name)] ∧
          (typedefs parts).filter (·.1 == name) = [(name, members)] ∧
          HasStruct name members lines ∧ Member.Holds members [trace false] traceControl := by
  obtain ⟨text, hrender⟩ := exists_render_tracing false
  obtain ⟨parts, lines, hparts, htext, -, hended, -, hall⟩ :=
    render_declares (distinct_tracing false) hrender
  obtain ⟨source, name, decls, members, hsource, -, -, hpointer, htypedef, -, hstruct, -,
    hdeclared⟩ := hall (tracePort false) (List.mem_singleton_self _) rfl
  cases hsource
  obtain ⟨hholds, hmember⟩ := hdeclared _ _ (holds_tracePort false) rfl
  refine ⟨text, hrender, parts, lines, hparts, htext, hended, name, members, hpointer, htypedef,
    hstruct, hmember (hholds.2 ⟨?_, ?_⟩)⟩
  · exact List.forall_mem_singleton.2 rfl
  · rintro ⟨d, hd, -⟩
    cases hd

/-- With the cluster hidden, the register has its macros and no member. -/
theorem not_declares_tracing :
    (tracing true).HasDistinctNames ∧ ∃ text, render plainly (tracing true) = .ok text ∧
      ∃ parts, Header.parts plainly (tracing true) = .ok parts ∧
        text = Part.text plainly parts ∧
        Describes plainly (tracing true) (tracePort true) traceControl enable ∧
        (∃ m ∈ Part.fieldMacros parts, m.name = "TPIU_CTRL_EN") ∧
        HasBits plainly "TPIU_CTRL_EN" 0 1 (parts.flatMap (Part.lines plainly)) ∧
        ∃ name members, (pointers parts).filter (·.1 == "TPIU") = [("TPIU", name)] ∧
          (typedefs parts).filter (·.1 == name) = [(name, members)] ∧
          members.filterMap Member.declared? = [("RESERVED0", none), ("ID", none)] ∧
          ¬Member.Holds members [trace true] traceControl := by
  obtain ⟨text, hrender⟩ := exists_render_tracing true
  obtain ⟨parts, hparts, htext⟩ := bind_eq_ok.1 hrender
  cases htext
  have hincluded : tracePort true ∈ included plainly (tracing true) :=
    mem_included.2 ⟨List.mem_singleton_self _, rfl⟩
  obtain ⟨name, members, -, hmembers, hpointer, htypedef⟩ :=
    exists_typedef_of_mem (distinct_tracing true) hparts hincluded rfl
  rw [structMembers_tracePort] at hmembers
  cases hmembers
  obtain ⟨m, hm, hfits⟩ := macro_of_render (distinct_tracing true) hparts (describes_tracing true)
  obtain ⟨hoffset, hwidth⟩ := Prod.mk.inj hfits.bits_eq
  have hname : m.name = "TPIU_CTRL_EN" := by
    rw [eq_of_beq (of_filter_eq_singleton hm).2]
    cbv
  have hmem := (of_filter_eq_singleton hm).1
  have hbits := hasBits_of_mem (s := plainly) hmem
  rw [hname, hoffset, hwidth] at hbits
  refine ⟨distinct_tracing true, _, hrender, parts, hparts, rfl, describes_tracing true,
    ⟨m, hmem, hname⟩, hbits, name, _, hpointer, htypedef, rfl, fun hholds => ?_⟩
  cases hholds with
  | inside mem =>
    simp [tracePortMembers, identityMember, Member.exposedAll, Member.exposed] at mem

end Example

end Header

end RegisterMap
