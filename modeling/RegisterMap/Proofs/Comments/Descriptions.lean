import Mathlib
import RegisterMap.Proofs.Comments.Macros
import RegisterMap.Proofs.Header.Definitions

/-!
# Descriptions in a header

Every part of the header of a device with ordinary texts is read alike with all descriptions and
with none (`Header.alike_parts`). Devices that differ in descriptions only have headers that are the
same without comments, or none (`Header.render_withoutComments`).
-/

namespace RegisterMap.Header

open CText CText.Reader
open Text (ended)

variable {s : Settings} {d e : Device} {p source : Peripheral}

/-- The parts are read alike. -/
abbrev AlikeParts (s : Settings) (a b : List Part) : Prop :=
  Alike code code (Part.text s a) (Part.text s b)

theorem AlikeParts.append {a b a' b' : List Part} (h : AlikeParts s a b)
    (h' : AlikeParts s a' b') : AlikeParts s (a ++ a') (b ++ b') := by
  unfold AlikeParts
  rw [Part.text_append, Part.text_append]
  exact Alike.append h h'

theorem alikeParts_plain {ls ms : List String} (h : Alike code code (ended ls) (ended ms)) :
    AlikeParts s [.plain ls] [.plain ms] := by
  unfold AlikeParts
  rw [Part.text_singleton, Part.text_singleton]
  exact h

theorem alikeParts_nil : AlikeParts s [] [] := Leads.alike rfl

theorem alikeParts_self {a : List Part} (h : ∀ p ∈ a, p.IsClosed s) : AlikeParts s a a :=
  (Part.leads_text h).alike

/-! ## One peripheral -/

theorem ensures_membersOf {es : List Element} (h : Element.hasOrdinaryTextsAll es = true) :
    Ensures (membersOf s es) fun ms => ∀ m ∈ ms, m.HasInertNames := by
  refine (ensures_layout h).bind fun ds hds => ?_
  have hall : ∀ (ds : List Decl) (gaps : Nat), (∀ d ∈ ds, d.HasOrdinaryTexts) →
      Ensures (Member.ofDecls s.bytePadding gaps ds) fun x => ∀ m ∈ x.1, m.HasInertNames := by
    intro ds
    induction ds with
    | nil => exact fun _ _ => .ok nofun
    | cons d ds ih =>
      intro gaps hds
      obtain ⟨hd, hds⟩ := List.forall_mem_cons.1 hds
      exact (Member.hasInertNames_ofDecl s.bytePadding gaps hd).bind fun x hx =>
        (ih x.2 hds).bind fun y hy => .ok (List.forall_mem_append.2 ⟨hx, hy⟩)
  exact (hall ds 0 hds).bind fun x hx => .ok hx

/-- Without the texts of comments, elements have the members that they have without descriptions. -/
theorem membersOf_undescribedAll (s : Settings) (es : List Element) :
    (membersOf s (Element.undescribedAll es)).map Member.silentAll =
      (membersOf s es).map Member.silentAll := by
  have hmembers (es : List Element) : (membersOf s es).map Member.silentAll =
      (layout (Element.outlineAll es)) >>= Member.ofLayout s.bytePadding := by
    rw [layout_outline, membersOf]
    cases layout es with
    | error f => rfl
    | ok ds => exact (Member.ofLayout_outline s.bytePadding ds).symm
  rw [hmembers, hmembers, Element.outlineAll_undescribedAll]

theorem alike_linesOf {ms ns : List Member} (hms : ∀ m ∈ ms, m.HasInertNames)
    (hns : ∀ n ∈ ns, n.HasInertNames) (h : Member.silentAll ms = Member.silentAll ns)
    (indent : Nat) :
    Alike code code (ended (Member.linesOf indent ms)) (ended (Member.linesOf indent ns)) := by
  have hleft := (Member.alike_linesOf_silent hms indent).symm
  rw [h] at hleft
  exact hleft.trans (Member.alike_linesOf_silent hns indent)

/-- A typedef is read alike under all descriptions of its registers. -/
theorem alike_structParts {group name : String} {ms ns : List Member} (hgroup : IsInert group)
    (hname : IsInert name) (h : Alike code code (ended (Member.linesOf 3 ms))
      (ended (Member.linesOf 3 ns))) :
    AlikeParts s (structParts group name ms) (structParts group name ns) := by
  have hopen : Leads code code (ended (Frame.openGroup s!"{group}_structs" s!"{group} struct"
      s!"Struct for {group}")) := by
    refine Frame.leads_openGroup ?_ ?_ ?_ <;> simp only [ToString.toString, isInert_append]
    · exact ⟨hgroup, by decide⟩
    · exact ⟨hgroup, by decide⟩
    · exact ⟨by decide, hgroup⟩
  have hclose : Leads code code (ended (Frame.closeGroup s!"{group}_structs")) :=
    Frame.leads_closeGroup (isInert_append.2 ⟨hgroup, by decide⟩)
  have hfirst : IsInert s!"typedef struct {name}_Type \x7b" :=
    isInert_append.2 ⟨isInert_append.2 ⟨by decide +kernel, hname⟩, by decide⟩
  have hlast : Leads code code (ended [s!"\x7d {name}_Type;", ""]) := by
    have hend : IsInert s!"\x7d {name}_Type;" :=
      isInert_append.2 ⟨isInert_append.2 ⟨by decide, hname⟩, by decide⟩
    exact hend.code.newline.cons (by decide)
  have htypedef : AlikeParts s [.typedef name ms] [.typedef name ns] := by
    unfold AlikeParts
    rw [Part.text_singleton, Part.text_singleton]
    exact .cons hfirst.code.newline.alike (h.lines hlast.alike)
  exact (alikeParts_plain hopen.alike).append (htypedef.append (alikeParts_plain hclose.alike))

theorem agree_members (hsource : source.HasOrdinaryTexts) {group name : String}
    (hgroup : IsInert group) (hname : IsInert name) :
    Agree (fun ms ns => AlikeParts s (structParts group name ms) (structParts group name ns))
      (membersOf s source.undescribed.registers) (membersOf s source.registers) := by
  have hsilent := membersOf_undescribedAll s source.registers
  have hundescribed := ensures_membersOf (s := s)
    (Element.hasOrdinaryTextsAll_undescribedAll _ hsource.registers)
  have hdescribed := ensures_membersOf (s := s) hsource.registers
  show Agree _ (membersOf s (Element.undescribedAll source.registers)) _
  cases hms : membersOf s (Element.undescribedAll source.registers) with
  | error f =>
    cases hns : membersOf s source.registers with
    | error g =>
      rw [hms, hns] at hsilent
      cases hsilent
      exact .error f
    | ok ns =>
      rw [hms, hns] at hsilent
      cases hsilent
  | ok ms =>
    cases hns : membersOf s source.registers with
    | error g =>
      rw [hms, hns] at hsilent
      cases hsilent
    | ok ns =>
      rw [hms, hns] at hsilent
      have halike := alike_linesOf (hundescribed ms hms) (hdescribed ns hns)
        (Except.ok.inj hsilent) 3
      exact .ok (alike_structParts hgroup hname halike)

/-- What a header has about a peripheral is read alike without descriptions. -/
theorem agree_peripheral (h : d.HasOrdinaryTexts) (hp : p ∈ d.peripherals) (w : Written) :
    Agree (Beside (AlikeParts s)) (peripheral s d.undescribed p.undescribed w)
      (peripheral s d p w) := by
  refine peripheral_agree AlikeParts.append Peripheral.keepsIdentity_undescribed rfl
    alikeParts_nil w (alikeParts_plain (alike_heading (h.peripherals p hp))) ?_ ?_ ?_
  · intro source name group hsource hname hgroup
    exact agree_members (h.resolve hp hsource) (h.groupName hp hsource hgroup).isInert
      (h.structName hp hname).isInert
  · intro source defined hsource
    rw [FieldMacro.ofPeripheral_undescribed]
    exact .of_ensures ((FieldMacro.ensures_ofPeripheral (h.resolve hp hsource) defined).mono
      fun x hx => ⟨alikeParts_self hx, rfl⟩)
  · intro source hsource
    rw [AccessMacro.ofPeripheral_undescribed]
    exact alikeParts_self fun part hpart => AccessMacro.isClosed_of_mem_ofPeripheral
      (h.peripherals p hp) (h.resolve hp hsource) hpart

/-! ## The whole header -/

theorem vectors_undescribed (d : Device) :
    d.undescribed.vectorTable.getD .empty = (d.vectorTable.getD .empty).undescribed := by
  show (d.vectorTable.map VectorTable.undescribed).getD .empty = _
  cases d.vectorTable <;> rfl

theorem alike_front (h : d.HasOrdinaryTexts) : AlikeParts s (front d.undescribed) (front d) := by
  have hvectors : (d.vectorTable.getD .empty).HasOrdinaryTexts := by
    cases ht : d.vectorTable with
    | none => exact List.forall_mem_nil _
    | some t => exact h.vectorTable t ht
  have hcore : Leads code code (ended ((d.cpu.map core).getD [])) := by
    cases hc : d.cpu with
    | none => exact leads_ended (List.forall_mem_nil _)
    | some c => exact leads_core (h.cpu c hc)
  have hprocessor := Frame.leads_title (t := "Processor and Core Peripheral Section") (by decide)
  have hspecific := Frame.leads_title (t := "Device Specific Peripheral Section") (by decide)
  have hblank : Leads code code (ended [""]) := leads_ended (by decide)
  have htables := ((leads_preamble h).alike.lines (Vectors.alike_enumeration hvectors)).lines
    (Vectors.alike_prototypes hvectors)
  have hsections :=
    ((htables.lines hprocessor.alike).lines hcore.alike).lines leads_qualifiers.alike
  have hall := ((hsections.lines hspecific.alike).lines hblank.alike).lines leads_unionsStart.alike
  refine alikeParts_plain ?_
  rw [show preamble d.undescribed = preamble d from rfl,
    show d.undescribed.cpu = d.cpu from rfl, vectors_undescribed]
  exact hall

theorem isClosed_of_mem_pointers (h : d.HasOrdinaryTexts) {pointers : List Part}
    (hpointers : pointersOf s d (included s d) = .ok pointers) :
    ∀ part ∈ pointers, part.IsClosed s := by
  intro part hpart
  obtain ⟨p, hp, hpart⟩ := exists_mem_of_forall₂ (mapM_eq_ok_iff.1 hpointers) hpart
  obtain ⟨name, hname, hpart⟩ := bind_eq_ok.1 hpart
  cases hpart
  have hp := (mem_included.1 hp).1
  exact Part.isClosed_pointer (h.peripherals p hp).name.isInert (h.structName hp hname).isInert

theorem alike_back (h : d.HasOrdinaryTexts) {pointers : List Part}
    (hpointers : pointersOf s d (included s d) = .ok pointers) :
    AlikeParts s (back d (included s d) pointers) (back d (included s d) pointers) := by
  have hunions : Leads code code (ended (unionsEnd ++ [""])) := leads_unionsEnd.lines (by decide)
  have hmap := hunions.lines (Frame.leads_title (t := "Peripheral memory map") (by decide))
  have hdeclarations : Leads code code (ended ("" :: Frame.title "Peripheral declarations")) :=
    leads_newline.1.cons (Frame.leads_title (by decide))
  have hlists : Leads code code
      (ended ("" :: (included s d).flatMap interruptList ++ closing d)) := by
    have hinterrupts : Leads code code (ended ((included s d).flatMap interruptList)) := by
      refine leads_ended fun l hl => ?_
      obtain ⟨p, hp, hl⟩ := List.mem_flatMap.1 hl
      exact leads_interruptList (h.peripherals p (mem_included.1 hp).1) l hl
    exact leads_newline.1.cons (hinterrupts.lines (leads_closing h))
  have hbases : ∀ part ∈ (included s d).map fun p => Part.base p.name p.baseAddress,
      part.IsClosed s := by
    intro part hpart
    obtain ⟨p, hp, rfl⟩ := List.mem_map.1 hpart
    exact Part.isClosed_base (h.peripherals p (mem_included.1 hp).1).name.isInert p.baseAddress
  have hpointers := isClosed_of_mem_pointers h hpointers
  unfold back
  refine .append (.append (.append (.append ?_ ?_) ?_) ?_) ?_
  · exact alikeParts_plain hmap.alike
  · exact alikeParts_self hbases
  · exact alikeParts_plain hdeclarations.alike
  · exact alikeParts_self hpointers
  · exact alikeParts_plain hlists.alike

/-- The header of a device with ordinary texts is read alike without descriptions. -/
theorem alike_parts (h : d.HasOrdinaryTexts) :
    Agree (AlikeParts s) (parts s d.undescribed) (parts s d) :=
  parts_agree AlikeParts.append Peripheral.keepsIdentity_undescribed rfl rfl alikeParts_nil
    (alike_front h) (fun _ hp w => agree_peripheral h (mem_included.1 hp).1 w)
    fun _ hpointers => alike_back h hpointers

theorem alike_render (h : d.HasOrdinaryTexts) (s : Settings) :
    Agree (Alike code code) (render s d.undescribed) (render s d) :=
  (alike_parts h).bind fun _ _ _ _ halike => .ok halike

/-- **Descriptions stay in comments.** Of two devices that differ in descriptions only and whose
other texts are ordinary, either none has a header, for the same reason, or both have one, and
these are the same when comments are removed, whatever is put in their place. -/
theorem render_withoutComments (hd : d.HasOrdinaryTexts) (he : e.HasOrdinaryTexts)
    (hsame : d.undescribed = e.undescribed) (s : Settings) :
    (∃ f, render s d = .error f ∧ render s e = .error f) ∨
      ∃ text text', render s d = .ok text ∧ render s e = .ok text' ∧
        ∀ gap, withoutComments gap text = withoutComments gap text' := by
  have hleft := alike_render hd s
  have hright := alike_render he s
  rw [← hsame] at hright
  generalize render s d.undescribed = bare at hleft hright
  generalize render s d = x at hleft
  generalize render s e = y at hright
  cases hleft with
  | error f =>
    cases hright
    exact .inl ⟨f, rfl, rfl⟩
  | ok htext =>
    cases hright with
    | ok htext' =>
      exact .inr ⟨_, _, rfl, rfl, fun gap => (htext.symm.trans htext').withoutComments gap⟩

section Example

private def control (text : String) : Register :=
  { Register.plain "CTRL" 0 32 with
    description := text
    fields := [{ name := "EN", bitWidth := 1, description := text }] }

private def counter (text : String) : Register :=
  { Register.plain "CNT" 0 16 with description := text }

private def channel (text : String) : Cluster := { name := "CH", offset := 4, description := text }

/-- A timer with a control register and a channel, all described by this text. -/
private def timer (text : String) : Peripheral where
  name := "TIM0"
  description := text
  baseAddress := 0x1000
  registers := [.register (control text), .cluster (channel text) [.register (counter text)]]
  interrupts := [{ index := 3, name := "TIM0", description := text }]

private def timed (text : String) : Device where
  name := "K10"
  description := text
  peripherals := [timer text]
  vectorTable := some ⟨[(3, { index := 3, name := "TIM0", description := text })],
    List.pairwise_singleton _ _⟩

private theorem exists_structMembers_timer : ∃ ms, structMembers {} (timer "") = .ok ms := by
  have hlayout : layout (timer "").registers = .ok [.register (control "") 0,
      .cluster (channel "") 4 2 [.register (counter "") 0]] := by cbv
  rw [structMembers, hlayout]
  exact ⟨_, rfl⟩

private theorem exists_render_timed : ∃ text, render {} (timed "") = .ok text := by
  have hname : (timed "").structName (timer "") true = .ok "TIM0" := by cbv
  have hgroup : (timed "").groupName (timer "") = .ok "TIM" := by cbv
  have hmacros : (FieldMacro.ofPeripheral {} (timer "") []).toOption.isSome = true := by cbv
  obtain ⟨members, hmembers⟩ := exists_structMembers_timer
  exact exists_render_of_single rfl hname hgroup hmembers hmacros (List.mergeSort_singleton _)

theorem render_withoutComments_timed :
    (timed "").HasOrdinaryTexts ∧ (timed "*/ int x; /*\\\n** //").HasOrdinaryTexts ∧
      (timed "").undescribed = (timed "*/ int x; /*\\\n** //").undescribed ∧
      ∃ text text', render {} (timed "") = .ok text ∧
        render {} (timed "*/ int x; /*\\\n** //") = .ok text' ∧
        withoutComments " " text = withoutComments " " text' := by
  have hplain : (timed "").HasOrdinaryTexts := by decide +kernel
  have hodd : (timed "*/ int x; /*\\\n** //").HasOrdinaryTexts := by decide +kernel
  have hsame : (timed "").undescribed = (timed "*/ int x; /*\\\n** //").undescribed := rfl
  refine ⟨hplain, hodd, hsame, ?_⟩
  rcases render_withoutComments hplain hodd hsame {} with ⟨f, hf, -⟩ | ⟨text, text', ht, ht', h⟩
  · obtain ⟨text, htext⟩ := exists_render_timed
    rw [hf] at htext
    cases htext
  · exact ⟨text, text', ht, ht', h " "⟩

end Example
end RegisterMap.Header
