import RegisterMap.Proofs.Comments.Lines
import RegisterMap.Proofs.Layout.Proper
import RegisterMap.Proofs.Layout.Sharing

/-!
# Structure members with and without descriptions

The members of a structure whose registers have ordinary names are read alike with all descriptions
(`alike_linesOf`), and elements without descriptions have the same members but for the texts in the
comments on them (`agree_members`).
-/

namespace RegisterMap

open CText CText.Reader
open Text (ended)

/-! ## What layouts declare -/

/-- The registers and clusters in the declaration have ordinary texts. -/
inductive Decl.HasOrdinaryTexts : Decl → Prop
  | register {r : Register} {offset : Nat} (h : r.HasOrdinaryTexts) :
      HasOrdinaryTexts (.register r offset)
  | element {r : Register} {i offset : Nat} (h : r.HasOrdinaryTexts) :
      HasOrdinaryTexts (.element r i offset)
  | cluster {c : Cluster} {offset size : Nat} {ds : List Decl} (h : c.HasOrdinaryTexts)
      (members : ∀ d ∈ ds, HasOrdinaryTexts d) : HasOrdinaryTexts (.cluster c offset size ds)
  | union {offset size : Nat} {ds : List Decl} (members : ∀ d ∈ ds, HasOrdinaryTexts d) :
      HasOrdinaryTexts (.union offset size ds)
  | struct {offset size : Nat} {ds : List Decl} (members : ∀ d ∈ ds, HasOrdinaryTexts d) :
      HasOrdinaryTexts (.struct offset size ds)
  | reserved (offset size : Nat) : HasOrdinaryTexts (.reserved offset size)

namespace Layout

theorem hasOrdinaryTexts_of_mem_gap {a b : Nat} {d : Decl} (h : d ∈ Decl.gap a b) :
    d.HasOrdinaryTexts := by
  unfold Decl.gap at h
  split at h
  · cases List.mem_singleton.1 h
    exact .reserved _ _
  · cases h

theorem declares_ordinary_single {d : Decl} (hd : d.HasOrdinaryTexts) {offset size : Nat} :
    Placed.Declares ⟨offset, size, ⟨[d], [d]⟩⟩ Decl.HasOrdinaryTexts where
  shared_ne := List.cons_ne_nil _ _
  alone := List.forall_mem_singleton.2 hd
  shared := List.forall_mem_singleton.2 hd

theorem declares_ordinary_of_declareRegister {r : Register} {p : Placed} (hr : r.HasOrdinaryTexts)
    (h : declareRegister r = .ok p.content) : p.Declares Decl.HasOrdinaryTexts := by
  obtain ⟨offset, size, content⟩ := p
  rcases declareRegister_eq_ok_iff.1 h with ⟨-, rfl⟩ | ⟨d, -, -, -, -, rfl⟩
  · exact declares_ordinary_single (.register hr)
  · have helements : ∀ e ∈ elements r d, e.HasOrdinaryTexts := by
      intro e he
      obtain ⟨i, -, he⟩ := List.mem_flatMap.1 he
      rcases List.mem_cons.1 he with rfl | he
      · exact .element hr
      · exact hasOrdinaryTexts_of_mem_gap he
    exact {
      shared_ne := List.cons_ne_nil _ _
      alone := helements
      shared := List.forall_mem_singleton.2 (.struct helements) }

/-- An arrangement of ordinary elements holds ordinary texts. -/
theorem hasOrdinaryTexts_of_layout {es : List Element} {ds : List Decl} (h : layout es = .ok ds)
    (hes : ∀ e ∈ es, ∀ p : Placed, declare e = .ok p.content →
      p.Declares Decl.HasOrdinaryTexts) : ∀ d ∈ ds, d.HasOrdinaryTexts := by
  obtain ⟨ps, reached, hplaced, -, harranged⟩ := arranged_of_layout h
  refine harranged.forall_mem (fun a b d => hasOrdinaryTexts_of_mem_gap)
    (fun _ _ _ _ => .union) (fun _ _ _ => .struct) fun p hp => ?_
  obtain ⟨e, he, hep⟩ := exists_isPlaced_of_mem hplaced hp
  exact hes e (List.mem_filter.1 ((Element.sortLevel_perm _).mem_iff.1 he)).1 p hep.declare_eq

theorem declares_ordinary (e : Element) : e.hasOrdinaryTexts = true →
    ∀ p : Placed, declare e = .ok p.content → p.Declares Decl.HasOrdinaryTexts := by
  induction e using Element.tree_induction with
  | register r =>
    intro hr p h
    rw [declare] at h
    exact declares_ordinary_of_declareRegister (Element.hasOrdinaryTexts_register.1 hr) h
  | cluster c es ih =>
    intro hc p h
    obtain ⟨hc, hes⟩ := Element.hasOrdinaryTexts_cluster.1 hc
    obtain ⟨offset, size, content⟩ := p
    rw [declare] at h
    obtain ⟨members, hmembers, h⟩ := bind_eq_ok.1 h
    obtain ⟨filled, hfilled, h⟩ := bind_eq_ok.1 h
    cases h
    have hordinary := hasOrdinaryTexts_of_layout hmembers fun e he => ih e he (hes e he)
    refine declares_ordinary_single (.cluster hc fun d hd => ?_)
    unfold fillCluster at hfilled
    split at hfilled
    · cases hfilled
      exact hordinary d hd
    · split at hfilled
      · cases hfilled
      · cases hfilled
        exact (List.mem_append.1 hd).elim (hordinary d) hasOrdinaryTexts_of_mem_gap

end Layout

/-- What is laid out with ordinary texts is declared with ordinary texts. -/
theorem ensures_layout {es : List Element} (h : Element.hasOrdinaryTextsAll es = true) :
    Ensures (layout es) fun ds => ∀ d ∈ ds, d.HasOrdinaryTexts := fun _ hds =>
  Layout.hasOrdinaryTexts_of_layout hds fun e he =>
    Layout.declares_ordinary e (Element.hasOrdinaryTextsAll_iff.1 h e he)

namespace Member

/-! ## Members with inert names -/

/-- No name of a member can begin or end a comment, at any depth. -/
inductive HasInertNames : Member → Prop
  | word {qualifier : String} {type : WordType} {name : String} {count : Option Nat}
      {note : Option Note} (qualifier_inert : IsInert qualifier) (name_inert : IsInert name) :
      HasInertNames (.word qualifier type name count note)
  | nested {kind : Nesting} {note : Note} {ms : List Member}
      (kind_inert : ∀ name count, kind = .cluster name count → IsInert name)
      (members : ∀ m ∈ ms, HasInertNames m) : HasInertNames (.nested kind note ms)

theorem isInert_declarator {name : String} (h : IsInert name) (count : Option Nat) :
    IsInert (declarator name count) := by
  cases count with
  | none => exact h
  | some n =>
    exact isInert_append.2 ⟨isInert_append.2 ⟨isInert_append.2 ⟨h, by decide⟩,
      isInert_toString n⟩, by decide⟩

theorem isInert_qualifier (a : Access) : IsInert a.qualifier := by cases a <;> decide

theorem hasInertNames_of_mem_ofGap {bytePadding : Bool} {gaps offset size : Nat} {m : Member}
    (h : m ∈ (ofGap bytePadding gaps offset size).1) : m.HasInertNames := by
  have hreserved (mark : String) (hmark : IsInert mark) : IsInert s!"RESERVED{mark}{gaps}" :=
    isInert_append.2 ⟨isInert_append.2 ⟨by decide, hmark⟩, isInert_toString gaps⟩
  unfold ofGap at h
  split at h
  · cases h
  · split at h
    · cases List.mem_singleton.1 h
      exact .word (by decide) (hreserved "_" (by decide))
    · split at h
      · cases List.mem_singleton.1 h
        exact .word (by decide) (hreserved "" (by decide))
      · split at h <;>
        · cases List.mem_singleton.1 h
          exact .word (by decide) (hreserved "" (by decide))

theorem hasInertNames_ofRegister {r : Register} {name : String} {count : Option Nat} {note : Note}
    (hname : IsInert name) : Ensures (ofRegister r name count note) HasInertNames :=
  .seq fun _ => .ok (.word (isInert_qualifier r.access) hname)

/-- The members of a declaration with ordinary texts have inert names. -/
theorem hasInertNames_ofDecl (bytePadding : Bool) (gaps : Nat) {d : Decl}
    (h : d.HasOrdinaryTexts) :
    Ensures (ofDecl bytePadding gaps d) fun x => ∀ m ∈ x.1, m.HasInertNames := by
  have hall (ds : List Decl) (hds : ∀ d ∈ ds, ∀ gaps, Ensures (ofDecl bytePadding gaps d)
      fun x => ∀ m ∈ x.1, m.HasInertNames) (gaps : Nat) :
      Ensures (ofDecls bytePadding gaps ds) fun x => ∀ m ∈ x.1, m.HasInertNames := by
    induction ds generalizing gaps with
    | nil => exact .ok nofun
    | cons d ds ih =>
      obtain ⟨hd, hds⟩ := List.forall_mem_cons.1 hds
      refine (hd gaps).bind fun x hx => (ih hds x.2).bind fun y hy => .ok ?_
      exact List.forall_mem_append.2 ⟨hx, hy⟩
  induction h generalizing gaps with
  | @register r offset h =>
    unfold ofDecl
    cases hd : r.dim with
    | none =>
      exact (hasInertNames_ofRegister h.name.identifier.isInert).bind fun m hm =>
        .ok (List.forall_mem_singleton.2 hm)
    | some d =>
      have hbase : IsOrdinary r.baseName := Placeholder.isOrdinary_dropFrom h.name
      exact (hasInertNames_ofRegister hbase.identifier.isInert).bind fun m hm =>
        .ok (List.forall_mem_singleton.2 hm)
  | @element r i offset h =>
    have hname := (isOrdinary_elementName h.dim h.name i).identifier.isInert
    exact (hasInertNames_ofRegister hname).bind fun m hm => .ok (List.forall_mem_singleton.2 hm)
  | @cluster c offset size ds h _ ih =>
    refine (hall ds (fun d hd gaps => ih d hd gaps) gaps).bind fun x hx =>
      .ok (List.forall_mem_singleton.2 (.nested (fun name count hkind => ?_) hx))
    rw [← (Nesting.cluster.inj hkind).1]
    exact h.baseName.identifier.isInert
  | @union offset size ds _ ih | @struct offset size ds _ ih =>
    exact (hall ds (fun d hd gaps => ih d hd gaps) gaps).bind fun x hx =>
      .ok (List.forall_mem_singleton.2 (.nested nofun hx))
  | reserved offset size => exact .ok fun m hm => hasInertNames_of_mem_ofGap hm

/-! ## Members without descriptions -/

mutual

/-- The member with the texts of the comments on its words left out. -/
def silent : Member → Member
  | word qualifier type name count note =>
    word qualifier type name count (note.map fun n => { n with text := "" })
  | nested kind note ms => nested kind note (silentAll ms)

/-- The members with the texts of the comments on their words left out. -/
def silentAll : List Member → List Member
  | [] => []
  | m :: ms => m.silent :: silentAll ms

end

theorem silentAll_append (ms ns : List Member) :
    silentAll (ms ++ ns) = silentAll ms ++ silentAll ns := by
  induction ms with
  | nil => rfl
  | cons m ms ih => rw [List.cons_append, silentAll, ih, silentAll, List.cons_append]

/-- The members made so far without the texts of comments. -/
def silenced (x : List Member × Nat) : List Member × Nat := (silentAll x.1, x.2)

theorem silenced_ofGap (bytePadding : Bool) (gaps offset size : Nat) :
    silenced (ofGap bytePadding gaps offset size) = ofGap bytePadding gaps offset size := by
  unfold ofGap
  split
  · rfl
  · split
    · rfl
    · split
      · rfl
      · split <;> rfl

theorem ofRegister_outline (r : Register) (name text : String) (count : Option Nat)
    (offset : Nat) :
    ofRegister r.outline name count ⟨offset, ""⟩ =
      (ofRegister r name count ⟨offset, text⟩).map silent := by
  unfold ofRegister
  rw [show r.outline.width = r.width from rfl]
  cases WordType.ofWidth r.width <;> rfl

theorem elementName_empty (d : Option Dim) (i : Nat) : elementName "" d i = "" := by
  cases d <;> rfl

mutual

/-- The members of an outline are those of the declaration, without the texts of comments. -/
theorem ofDecl_outline (bytePadding : Bool) (gaps : Nat) : (d : Decl) →
    ofDecl bytePadding gaps (d.mapHeads Register.outline Cluster.outline) =
      (ofDecl bytePadding gaps d).map silenced
  | .register r offset => by
    have hwhole := ofRegister_outline r (CText.identifier r.name) r.description none offset
    have harray (d : Dim) := ofRegister_outline r (CText.identifier r.baseName) r.description
      (some d.count) offset
    unfold Decl.mapHeads ofDecl
    rw [show r.outline.dim = r.dim from rfl, show r.outline.baseName = r.baseName from rfl,
      show r.outline.name = r.name from rfl, show r.outline.description = "" from rfl]
    cases r.dim with
    | none =>
      simp only [hwhole]
      cases ofRegister r (CText.identifier r.name) none ⟨offset, r.description⟩ <;> rfl
    | some d =>
      simp only [harray]
      cases ofRegister r (CText.identifier r.baseName) (some d.count) ⟨offset, r.description⟩ <;>
        rfl
  | .element r i offset => by
    have hone := ofRegister_outline r (CText.identifier (elementName r.name r.dim i))
      (elementName r.description r.dim i) none offset
    unfold Decl.mapHeads ofDecl
    rw [show r.outline.dim = r.dim from rfl, show r.outline.name = r.name from rfl,
      show r.outline.description = "" from rfl, elementName_empty, hone]
    cases ofRegister r (CText.identifier (elementName r.name r.dim i)) none
      ⟨offset, elementName r.description r.dim i⟩ <;> rfl
  | .cluster c _ _ ds | .union _ _ ds | .struct _ _ ds => by
    unfold Decl.mapHeads ofDecl
    rw [ofDecls_outline bytePadding gaps ds]
    cases ofDecls bytePadding gaps ds <;> rfl
  | .reserved _ _ => congrArg Except.ok (silenced_ofGap _ _ _ _).symm

theorem ofDecls_outline (bytePadding : Bool) (gaps : Nat) : (ds : List Decl) →
    ofDecls bytePadding gaps (Decl.mapHeadsAll Register.outline Cluster.outline ds) =
      (ofDecls bytePadding gaps ds).map silenced
  | [] => rfl
  | d :: ds => by
    rw [Decl.mapHeadsAll, ofDecls, ofDecls, ofDecl_outline bytePadding gaps d]
    cases ofDecl bytePadding gaps d with
    | error f => rfl
    | ok x =>
      have hrest := ofDecls_outline bytePadding x.2 ds
      simp only [Except.map, bind, Except.bind, silenced, hrest]
      cases ofDecls bytePadding x.2 ds with
      | error f => rfl
      | ok y => simp only [pure, Except.pure, silentAll_append]

end

theorem ofLayout_outline (bytePadding : Bool) (ds : List Decl) :
    ofLayout bytePadding (ds.map Decl.outline) = (ofLayout bytePadding ds).map silentAll := by
  have hmembers := ofDecls_outline bytePadding 0 ds
  rw [Decl.mapHeadsAll_eq_map] at hmembers
  unfold ofLayout
  rw [show ds.map Decl.outline = ds.map (Decl.mapHeads Register.outline Cluster.outline) from rfl,
    hmembers]
  cases ofDecls bytePadding 0 ds <;> rfl

/-! ## Their lines -/

/-- A line of code with a comment on it is read alike with all texts in the comment. -/
theorem alike_annotated {line : String} (h : Leads code code line) (offset : Nat) (s t : String) :
    Alike code code (annotated line ⟨offset, s⟩) (annotated line ⟨offset, t⟩) := by
  have hopen : Leads code block " /**< " := by decide
  have hline : Leads code code (Text.padEnd 47 line) := h.append (isInert_spaces _).code
  have hnote : Leads code block s!"{Text.padEnd 47 line} /**< {Text.hex offset 4}: " :=
    ((hline.append hopen).put (isInert_hex offset 4)).append (by decide)
  exact hnote.alike.append (alike_closing 60 s t)

theorem leads_opening (indent : Nat) (kind : Nesting) :
    Leads code code (Text.padEnd indent "" ++ opening kind) := by
  have hindent : IsInert (Text.padEnd indent "") := IsInert.padEnd (by decide) indent
  have hcluster : Leads code code "struct \x7b /* (cluster) */" := by decide
  refine hindent.code.append ?_
  cases kind with
  | union => decide
  | struct => decide
  | cluster name count => exact hcluster

theorem isInert_closing {indent : Nat} {kind : Nesting}
    (h : ∀ name count, kind = .cluster name count → IsInert name) :
    IsInert (Text.padEnd indent "" ++ closing kind) := by
  have hindent : IsInert (Text.padEnd indent "") := IsInert.padEnd (by decide) indent
  refine isInert_append.2 ⟨hindent, ?_⟩
  cases kind with
  | union => decide
  | struct => decide
  | cluster name count =>
    have hname := isInert_declarator (h name count rfl) count
    exact isInert_append.2 ⟨isInert_append.2 ⟨by decide, hname⟩, by decide⟩

/-- Members with inert names are read alike with the texts of comments and without. -/
theorem alike_lines_silent {m : Member} (h : m.HasInertNames) (indent : Nat) :
    Alike code code (ended (m.silent.lines indent)) (ended (m.lines indent)) := by
  have hall (ms : List Member) (indent : Nat) (hms : ∀ m ∈ ms, ∀ indent,
      Alike code code (ended (m.silent.lines indent)) (ended (m.lines indent))) :
      Alike code code (ended (linesOf indent (silentAll ms))) (ended (linesOf indent ms)) := by
    induction ms with
    | nil => exact Leads.alike rfl
    | cons m ms ih =>
      obtain ⟨hm, hms⟩ := List.forall_mem_cons.1 hms
      rw [silentAll, linesOf, linesOf]
      exact (hm indent).lines (ih hms)
  induction h generalizing indent with
  | @word qualifier type name count note hqualifier hname =>
    have hindent : IsInert (Text.padEnd indent "") := IsInert.padEnd (by decide) indent
    have hline : IsInert (Text.padEnd indent "" ++
        s!"{Text.padEnd 4 qualifier} {Text.padEnd 9 type.name} {declarator name count};") := by
      refine isInert_append.2 ⟨hindent, ?_⟩
      simp only [ToString.toString, isInert_append]
      exact ⟨⟨⟨⟨⟨hqualifier.padEnd 4, by decide⟩, (isInert_name type).padEnd 9⟩, by decide⟩,
        isInert_declarator hname count⟩, by decide⟩
    have hblank : Alike code code (ended []) (ended []) := Leads.alike rfl
    cases note with
    | none => exact hline.code.newline.alike.cons hblank
    | some note => exact (alike_annotated hline.code note.offset "" note.text).newline.cons hblank
  | @nested kind note ms hkind _ ih =>
    have hopen := alike_annotated (leads_opening indent kind) note.offset note.text note.text
    have hclose : Alike code code (ended [Text.padEnd indent "" ++ closing kind])
        (ended [Text.padEnd indent "" ++ closing kind]) :=
      (leads_ended (List.forall_mem_singleton.2 (isInert_closing hkind).code)).alike
    have hmembers := hall ms (indent + 3) fun m hm indent => ih m hm indent
    exact hopen.newline.cons (hmembers.lines hclose)

/-- So are lists of them. -/
theorem alike_linesOf_silent {ms : List Member} (h : ∀ m ∈ ms, m.HasInertNames) (indent : Nat) :
    Alike code code (ended (linesOf indent (silentAll ms))) (ended (linesOf indent ms)) := by
  induction ms with
  | nil => exact Leads.alike rfl
  | cons m ms ih =>
    obtain ⟨hm, hms⟩ := List.forall_mem_cons.1 h
    rw [silentAll, linesOf, linesOf]
    exact (alike_lines_silent hm indent).lines (ih hms)

end Member

end RegisterMap
