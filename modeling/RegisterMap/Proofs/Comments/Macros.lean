import RegisterMap.Proofs.Comments.Members
import RegisterMap.Proofs.Descent

/-!
# Macros and their comments

The macros for a peripheral whose texts are ordinary close the comments that they open
(`Part.IsClosed`): those of fields, in which registers and fields are named, and those of registers.
-/

namespace RegisterMap

open CText CText.Reader
open Text (ended ended_append)

/-! ## Registers with ordinary texts -/

namespace Element

theorem hasOrdinaryTexts_of_mem_registers {r : Register} (e : Element) :
    e.hasOrdinaryTexts = true → r ∈ e.registers → r.HasOrdinaryTexts := by
  induction e using tree_induction with
  | register s =>
    intro h hr
    cases List.mem_singleton.1 hr
    exact hasOrdinaryTexts_register.1 h
  | cluster c es ih =>
    intro h hr
    obtain ⟨e, he, hr⟩ := mem_registersAll_iff.1 hr
    exact ih e he ((hasOrdinaryTexts_cluster.1 h).2 e he) hr

theorem hasOrdinaryTexts_of_mem_registersAll {es : List Element} {r : Register}
    (h : hasOrdinaryTextsAll es = true) (hr : r ∈ registersAll es) : r.HasOrdinaryTexts := by
  obtain ⟨e, he, hr⟩ := mem_registersAll_iff.1 hr
  exact hasOrdinaryTexts_of_mem_registers e (hasOrdinaryTextsAll_iff.1 h e he) hr

mutual

theorem hasOrdinaryTexts_undescribed : (e : Element) → e.hasOrdinaryTexts = true →
    e.undescribed.hasOrdinaryTexts = true
  | .register r, h => by
    have hr := hasOrdinaryTexts_register.1 h
    refine hasOrdinaryTexts_register.2 ⟨hr.name, hr.dim, fun f hf => ?_⟩
    obtain ⟨g, hg, rfl⟩ := List.mem_map.1 hf
    exact hr.fields g hg
  | .cluster c es, h => by
    rw [hasOrdinaryTexts, Bool.and_eq_true] at h
    rw [undescribed, hasOrdinaryTexts, hasOrdinaryTextsAll_undescribedAll es h.2, Bool.and_true]
    have hc := of_decide_eq_true h.1
    exact decide_eq_true ⟨hc.name, hc.dim⟩

theorem hasOrdinaryTextsAll_undescribedAll : (es : List Element) →
    hasOrdinaryTextsAll es = true → hasOrdinaryTextsAll (undescribedAll es) = true
  | [], _ => rfl
  | e :: es, h => by
    rw [hasOrdinaryTextsAll, Bool.and_eq_true] at h
    rw [undescribedAll, hasOrdinaryTextsAll, hasOrdinaryTexts_undescribed e h.1,
      hasOrdinaryTextsAll_undescribedAll es h.2, Bool.and_self]

end

end Element

/-! ## Parts that close their comments -/

namespace Part

variable {s : Settings} {ps qs : List Part}

theorem text_eq_ended (s : Settings) (ps : List Part) : text s ps = ended (ps.flatMap (lines s)) :=
  rfl

theorem text_append (s : Settings) (ps qs : List Part) :
    text s (ps ++ qs) = text s ps ++ text s qs := by
  rw [text_eq_ended, List.flatMap_append, ended_append]
  rfl

theorem text_singleton (s : Settings) (p : Part) : text s [p] = ended (p.lines s) := by
  rw [text_eq_ended, List.flatMap_singleton]

/-- All comments that begin in the part end in it. -/
def IsClosed (s : Settings) (p : Part) : Prop := Leads code code (ended (p.lines s))

theorem leads_text (h : ∀ p ∈ ps, p.IsClosed s) : Leads code code (text s ps) := by
  induction ps with
  | nil => rfl
  | cons p ps ih =>
    obtain ⟨hp, hps⟩ := List.forall_mem_cons.1 h
    rw [text_eq_ended, List.flatMap_cons]
    exact hp.lines (ih hps)

theorem isClosed_of_isInert {p : Part} (h : ∀ l ∈ p.lines s, IsInert l) : p.IsClosed s :=
  leads_ended fun l hl => (h l hl).code

theorem isClosed_base {n : String} (h : IsInert n) (address : Nat) :
    IsClosed s (.base n address) := by
  refine isClosed_of_isInert (List.forall_mem_singleton.2 ?_)
  have hname : IsInert (baseName n) := isInert_append.2 ⟨h, by decide +kernel⟩
  simp only [ToString.toString, isInert_append]
  exact ⟨⟨⟨⟨by decide, hname.padEnd 30⟩, by decide⟩, isInert_hex address 8⟩, by decide⟩

theorem isClosed_pointer {n typedef : String} (h : IsInert n) (htypedef : IsInert typedef) :
    IsClosed s (.pointer n typedef) := by
  have hbase : IsInert (baseName n) := isInert_append.2 ⟨h, by decide +kernel⟩
  have hpointee : IsInert (pointee typedef) :=
    isInert_append.2 ⟨isInert_append.2 ⟨by decide +kernel, htypedef⟩, by decide⟩
  have hfirst : IsInert ("#define " ++ Text.padEnd 30 n ++ " ((" ++
      Text.padEnd 20 (pointee typedef)) := by
    simp only [isInert_append]
    exact ⟨⟨⟨by decide, h.padEnd 30⟩, by decide⟩, hpointee.padEnd 20⟩
  have hstar : Leads code code " *) " := by decide
  have hlast : IsInert (baseName n ++ ")") := isInert_append.2 ⟨hbase, by decide⟩
  have hline := (hfirst.code.append hstar).append hlast.code
  rw [← String.append_assoc] at hline
  exact leads_ended (List.forall_mem_singleton.2 hline)

end Part

/-! ## Field macros -/

namespace FieldMacro

variable {s : Settings} {m : FieldMacro}

theorem leads_line {definition comment : String} (hdefinition : IsInert definition)
    (hcomment : IsInert comment) : Leads code code (line definition comment) := by
  have hopen : Leads code block " /*!< " := by decide
  exact (((hdefinition.padEnd 100).code.append hopen).put (hcomment.padEnd 40)).append (by decide)

theorem isInert_positionName (h : IsInert m.name) : IsInert (m.positionName s) := by
  refine isInert_append.2 ⟨h, ?_⟩
  split <;> decide

theorem isInert_maskName (h : IsInert m.name) : IsInert (m.maskName s) := by
  refine isInert_append.2 ⟨h, ?_⟩
  split <;> decide

theorem isInert_maskValue (h : IsInert m.name) : IsInert (m.maskValue s) := by
  have hmask := isInert_hex (Bits.runMask m.offset m.width) 1
  have hlow := isInert_hex (Bits.lowMask m.width) 2
  have hposition := isInert_positionName (s := s) h
  unfold maskValue
  split <;> simp only [ToString.toString, isInert_append]
  · exact ⟨⟨by decide, hmask⟩, by decide⟩
  · exact ⟨⟨⟨⟨by decide, hlow⟩, by decide⟩, hposition⟩, by decide⟩

theorem isInert_placement (h : IsInert m.name) (t : WordType) : IsInert (m.placement s t) := by
  have hregister := isInert_name m.registerType
  have hvalue := isInert_name t
  have hposition := isInert_positionName (s := s) h
  have hmask := isInert_maskName (s := s) h
  unfold placement
  simp only [ToString.toString, isInert_append]
  exact ⟨⟨⟨⟨⟨⟨⟨⟨by decide, hregister⟩, by decide⟩, hvalue⟩, by decide⟩, hposition⟩, by decide⟩,
    hmask⟩, by decide⟩

/-- The macros of a field close the comments that tell about it. -/
theorem isClosed_fieldMacro (hname : IsInert m.name) (hsubject : IsInert m.subject) :
    Part.IsClosed s (.fieldMacro m) := by
  have hdefine {name value : String} (hname : IsInert name) (hvalue : IsInert value) :
      IsInert s!"#define {Text.padEnd 40 name} {value}" :=
    isInert_append.2 ⟨isInert_append.2 ⟨isInert_append.2 ⟨by decide, hname.padEnd 40⟩,
      by decide⟩, hvalue⟩
  have hplacement : IsInert m.placementName := isInert_append.2 ⟨hname, by decide⟩
  refine leads_ended fun l hl => ?_
  rcases List.mem_append.1 hl with hl | hl
  · rcases List.mem_cons.1 hl with rfl | hl
    · exact leads_line (hdefine (isInert_maskName hname) (isInert_maskValue hname))
        (isInert_append.2 ⟨hsubject, by decide⟩)
    · cases List.mem_singleton.1 hl
      exact leads_line (hdefine (isInert_positionName hname) (isInert_toString m.offset))
        (isInert_append.2 ⟨hsubject, by decide⟩)
  · obtain ⟨t, -, rfl⟩ := Option.map_eq_some_iff.1 (Option.mem_toList.1 hl)
    exact leads_line (hdefine hplacement (isInert_placement hname t))
      (isInert_append.2 ⟨hsubject, by decide⟩)

variable {p : Peripheral} {r : Register}

theorem isOrdinary_nameOf (hp : p.HasOrdinaryTexts) (hr : r.HasOrdinaryTexts) {f : Field}
    (hf : IsOrdinary f.name) : IsOrdinary (nameOf s p r f) := by
  have hunderscore : IsOrdinary "_" := by decide
  have hregister : IsOrdinary r.baseName := Placeholder.isOrdinary_dropFrom hr.name
  have hfield : IsOrdinary f.baseName := Placeholder.isOrdinary_fill (by decide) hf
  have hname : IsOrdinary s!"{p.name}_{r.baseName}_{f.baseName}" :=
    (((hp.name.append hunderscore).append hregister).append hunderscore).append hfield
  unfold nameOf
  split
  · exact isOrdinary_rename rfl (isOrdinary_rename rfl hname)
  · exact hname

theorem ensures_ofField (hp : p.HasOrdinaryTexts) (hr : r.HasOrdinaryTexts) {f : Field}
    (hf : IsOrdinary f.name) (type : WordType) :
    Ensures (ofField (nameOf s p r f) p r type f) fun m => Part.IsClosed s (.fieldMacro m) := by
  have hregister : IsOrdinary r.baseName := Placeholder.isOrdinary_dropFrom hr.name
  have hfield : IsOrdinary f.baseName := Placeholder.isOrdinary_fill (by decide) hf
  have hsubject : IsInert s!"{p.name}_{r.baseName}: {f.baseName}" := by
    simp only [ToString.toString, isInert_append]
    exact ⟨⟨⟨⟨hp.name.isInert, by decide⟩, hregister.isInert⟩, by decide⟩, hfield.isInert⟩
  have hname := (isOrdinary_nameOf (s := s) hp hr hf).isInert
  unfold ofField
  split
  · exact .seq fun _ => .ok (isClosed_fieldMacro hname hsubject)
  · exact .seq fun _ => .ok (isClosed_fieldMacro hname hsubject)

/-- The parts close their comments. -/
abbrev AreClosed (s : Settings) (x : List Part × DefinedMacros) : Prop :=
  ∀ p ∈ x.1, p.IsClosed s

theorem ensures_ofFields (hp : p.HasOrdinaryTexts) (hr : r.HasOrdinaryTexts) (type : WordType)
    {fs : List Field} (hfs : ∀ f ∈ fs, IsOrdinary f.name) (defined : DefinedMacros) :
    Ensures (ofFields s p r type defined fs) (AreClosed s) := by
  induction fs generalizing defined with
  | nil => exact .ok nofun
  | cons f fs ih =>
    obtain ⟨hf, hfs⟩ := List.forall_mem_cons.1 hfs
    refine .seq fun isNew => ?_
    split
    · refine (ensures_ofField hp hr hf type).bind fun m hm => ?_
      exact (ih hfs _).bind fun x hx => .ok (List.forall_mem_cons.2 ⟨hm, hx⟩)
    · exact ih hfs _

theorem ensures_fieldsOf (hp : p.HasOrdinaryTexts) (hr : r.HasOrdinaryTexts) :
    Ensures (p.fieldsOf r) fun fs => ∀ f ∈ fs, IsOrdinary f.name := by
  unfold Peripheral.fieldsOf
  split
  · exact .ok hr.fields
  · split
    · rename_i source t ht
      have hmem := Element.mem_registersAll_of_findIn? p.registers ht
      exact .ok (Element.hasOrdinaryTexts_of_mem_registersAll hp.registers hmem).fields
    · exact .fail

theorem leads_heading (hr : r.HasOrdinaryTexts) : Leads code code (heading r) := by
  have hopen : Leads code block "/* ------- " := by decide
  have htitle : IsInert (r.baseName ++ " Bit Fields") :=
    isInert_append.2 ⟨(Placeholder.isOrdinary_dropFrom hr.name).isInert, by decide⟩
  exact (hopen.put (htitle.padEnd 40)).append (by decide)

theorem ensures_ofRegister (hp : p.HasOrdinaryTexts) (hr : r.HasOrdinaryTexts)
    (defined : DefinedMacros) : Ensures (ofRegister s p defined r) (AreClosed s) := by
  unfold ofRegister
  split
  · exact .ok nofun
  · refine (ensures_fieldsOf hp hr).bind fun fs hfs => ?_
    have horder : ∀ f ∈ inOrder fs, IsOrdinary f.name := fun f hf => hfs f (List.mem_mergeSort.1 hf)
    split
    · exact .ok nofun
    · refine .seq fun type => (ensures_ofFields hp hr type horder defined).bind fun x hx => .ok ?_
      exact List.forall_mem_cons.2
        ⟨leads_ended (List.forall_mem_singleton.2 (leads_heading hr)), hx⟩

theorem ensures_ofRegisters (hp : p.HasOrdinaryTexts) {rs : List Register}
    (hrs : ∀ r ∈ rs, r.HasOrdinaryTexts) (defined : DefinedMacros) :
    Ensures (ofRegisters s p defined rs) (AreClosed s) := by
  induction rs generalizing defined with
  | nil => exact .ok nofun
  | cons r rs ih =>
    obtain ⟨hr, hrs⟩ := List.forall_mem_cons.1 hrs
    refine (ensures_ofRegister hp hr defined).within.bind fun x hx => ?_
    exact (ih hrs x.2).bind fun y hy => .ok (List.forall_mem_append.2 ⟨hx, hy⟩)

/-- The field macros of a peripheral with ordinary texts close their comments. -/
theorem ensures_ofPeripheral (hp : p.HasOrdinaryTexts) (defined : DefinedMacros) :
    Ensures (ofPeripheral s p defined) (AreClosed s) := by
  have hrs : ∀ r ∈ Element.registersAll (Element.sortAll p.registers), r.HasOrdinaryTexts :=
    fun r hr => Element.hasOrdinaryTexts_of_mem_registersAll hp.registers
      ((Element.registersAll_sortAll p.registers).mem_iff.1 hr)
  have hgroup := hp.ownGroupName.isInert
  have hbanner : Leads block block s!"'{p.name}' Position & Mask macros" := by
    have hquote : Leads block block "'" := by decide
    exact (hquote.put hp.name.isInert).append (by decide +kernel)
  have hopen : Leads code code (ended (Frame.openGroup s!"{p.ownGroupName}_Register_Masks"
      s!"{p.ownGroupName} Register Masks" s!"Register Masks for {p.ownGroupName}")) := by
    refine Frame.leads_openGroup ?_ ?_ ?_ <;> simp only [ToString.toString, isInert_append]
    · exact ⟨hgroup, by decide⟩
    · exact ⟨hgroup, by decide⟩
    · exact ⟨by decide, hgroup⟩
  have hclose : Leads code code
      (ended (Frame.closeGroup s!"{p.ownGroupName}_Register_Masks")) :=
    Frame.leads_closeGroup (isInert_append.2 ⟨hgroup, by decide⟩)
  refine (ensures_ofRegisters hp hrs defined).bind fun x hx => .ok ?_
  refine List.forall_mem_cons.2 ⟨(Frame.leads_banner hbanner).lines hopen, ?_⟩
  exact List.forall_mem_append.2 ⟨hx, List.forall_mem_singleton.2 hclose⟩

end FieldMacro

/-! ## Register macros -/

namespace AccessMacro

variable {s : Settings} {p source : Peripheral}

/-- The texts of the macro are ordinary. -/
structure HasOrdinaryTexts (m : AccessMacro) : Prop where
  name : IsOrdinary m.name
  peripheral : IsOrdinary m.peripheral
  path : ∀ step ∈ m.path, IsOrdinary step.name

theorem isClosed_accessMacro {m : AccessMacro} (h : m.HasOrdinaryTexts) :
    Part.IsClosed s (.accessMacro m) := by
  have hpath : IsInert (pathText m.path) := by
    refine Header.isInert_intercalate (by decide) fun t ht => ?_
    obtain ⟨step, hstep, rfl⟩ := List.mem_map.1 ht
    exact Member.isInert_declarator (h.path step hstep).isInert step.index
  refine Part.isClosed_of_isInert (List.forall_mem_singleton.2 ?_)
  unfold line
  simp only [ToString.toString, isInert_append]
  exact ⟨⟨⟨⟨⟨⟨by decide, h.name.isInert.padEnd 30⟩, by decide⟩, h.peripheral.isInert⟩,
    by decide⟩, hpath⟩, by decide⟩

theorem isOrdinary_of_mem_ofRegister {r : Register} (hr : r.HasOrdinaryTexts) {a : Accessor}
    (ha : a ∈ ofRegister r) : IsOrdinary a.1 ∧ IsOrdinary a.2.name := by
  unfold ofRegister at ha
  cases hd : r.dim with
  | none =>
    rw [hd] at ha
    cases List.mem_singleton.1 ha
    exact ⟨hr.name, hr.name⟩
  | some d =>
    have hdim : ∀ d' ∈ some d, d'.HasOrdinaryTexts := hd ▸ hr.dim
    simp only [hd] at ha
    split at ha
    · obtain ⟨i, -, rfl⟩ := List.mem_map.1 ha
      have hmark : IsOrdinary (Text.replaceAll "[%s]" "%s" r.name) := hr.name.replaceAll (by decide)
      exact ⟨Member.isOrdinary_elementName hdim hmark i, Placeholder.isOrdinary_dropFrom hr.name⟩
    · obtain ⟨i, -, rfl⟩ := List.mem_map.1 ha
      have helement := Member.isOrdinary_elementName hdim hr.name i
      exact ⟨helement, helement⟩

theorem isOrdinary_nameOf {name : String} (h : IsOrdinary name) : IsOrdinary (nameOf s name) := by
  unfold nameOf
  split
  · exact isOrdinary_rename rfl h
  · exact h

theorem isOrdinary_of_mem_instances {c : Cluster} (hc : c.HasOrdinaryTexts) {i : String × Step}
    (hi : i ∈ instances c) : IsOrdinary i.1 ∧ IsOrdinary i.2.name := by
  unfold instances at hi
  cases hd : c.dim with
  | none =>
    rw [hd] at hi
    cases List.mem_singleton.1 hi
    have hblank : IsOrdinary "" := by decide
    exact ⟨hblank, hc.baseName⟩
  | some d =>
    rw [hd] at hi
    obtain ⟨i, -, rfl⟩ := List.mem_map.1 hi
    exact ⟨(hc.dim d hd).indexText i, hc.baseName⟩

theorem hasOrdinaryTexts_of_mem_ofCluster {name : String} {c : Cluster} {es : List Element}
    {m : AccessMacro} (hname : IsOrdinary name) (hc : c.HasOrdinaryTexts)
    (hes : ∀ e ∈ es, e.hasOrdinaryTexts = true) (hm : m ∈ ofCluster s name c es) :
    m.HasOrdinaryTexts := by
  have hunderscore : IsOrdinary "_" := by decide
  unfold ofCluster at hm
  split at hm
  · cases List.mem_singleton.1 hm
    exact ⟨(hname.append hunderscore).append hc.baseName, hname,
      List.forall_mem_singleton.2 hc.baseName⟩
  · rename_i format hformat
    obtain ⟨⟨index, step⟩, hi, hm⟩ := List.mem_flatMap.1 hm
    obtain ⟨⟨member, last⟩, ha, hm⟩ := List.mem_filterMap.1 hm
    obtain ⟨r, hr, ha⟩ := List.mem_flatMap.1 ha
    obtain ⟨e, he, hvisible⟩ := List.mem_filterMap.1 hr
    have he := hes e ((Element.sortLevel_perm es).mem_iff.1 he)
    have hregister : r.HasOrdinaryTexts := by
      cases e with
      | register t =>
        rw [visible?] at hvisible
        split at hvisible
        · cases hvisible
        · cases hvisible
          exact Element.hasOrdinaryTexts_register.1 he
      | cluster _ _ => cases hvisible
    obtain ⟨hindex, hstep⟩ := isOrdinary_of_mem_instances hc hi
    obtain ⟨hmember, hlast⟩ := isOrdinary_of_mem_ofRegister hregister ha
    have hfilled : IsOrdinary (fillFormat format name c.baseName index member) :=
      ((((hc.macroFormat hformat).replaceAll (hname.append hunderscore)).replaceAll
        hc.baseName).replaceAll hindex).replaceAll hmember
    simp only at hm
    split at hm
    · cases hm
    · cases hm
      exact ⟨isOrdinary_nameOf hfilled, hname, List.forall_mem_cons.2
        ⟨hstep, List.forall_mem_singleton.2 hlast⟩⟩

theorem hasOrdinaryTexts_of_mem_ofElement {name : String} {e : Element} {m : AccessMacro}
    (hname : IsOrdinary name) (he : e.hasOrdinaryTexts = true) (hm : m ∈ ofElement s name e) :
    m.HasOrdinaryTexts := by
  unfold ofElement at hm
  split at hm
  · cases hm
  · cases e with
    | register r =>
      have hunderscore : IsOrdinary "_" := by decide
      obtain ⟨a, ha, rfl⟩ := List.mem_map.1 hm
      obtain ⟨hmember, hstep⟩ :=
        isOrdinary_of_mem_ofRegister (Element.hasOrdinaryTexts_register.1 he) ha
      exact ⟨isOrdinary_nameOf ((hname.append hunderscore).append hmember), hname,
        List.forall_mem_singleton.2 hstep⟩
    | cluster c es =>
      obtain ⟨hc, hes⟩ := Element.hasOrdinaryTexts_cluster.1 he
      exact hasOrdinaryTexts_of_mem_ofCluster hname hc hes hm

/-- The register macros of a peripheral with ordinary texts close their comments. -/
theorem isClosed_of_mem_ofPeripheral (hp : p.HasOrdinaryTexts) (hsource : source.HasOrdinaryTexts)
    {part : Part} (hpart : part ∈ ofPeripheral s p source) : part.IsClosed s := by
  rcases List.mem_cons.1 hpart with rfl | hpart
  · have hquote : Leads block block "'" := by decide
    exact Frame.leads_banner ((hquote.put hp.name.isInert).append (by decide +kernel))
  · obtain ⟨m, hm, rfl⟩ := List.mem_map.1 hpart
    obtain ⟨e, he, hm⟩ := List.mem_flatMap.1 hm
    have he := Element.hasOrdinaryTextsAll_iff.1 hsource.registers e
      ((Element.sortLevel_perm _).mem_iff.1 he)
    exact isClosed_accessMacro (hasOrdinaryTexts_of_mem_ofElement hp.name he hm)

end AccessMacro

end RegisterMap
