import RegisterMap.Proofs.Fields.Admission
import RegisterMap.Proofs.Repeats

/-!
# Fields that share enumerations

The fields of a register take over the enumerations of earlier ones that have the same
(`Register.extractSimilarFields_meaning`). A value keeps its meaning unless a field shared
enumerations with one that shares those of another now, fields of one name have different
enumerations, or the same enumerations stood in another order and two of them describe one value.
`Register.extractSimilarFields_loses` has a register of each kind.
-/

namespace RegisterMap

/-! ## What a value means -/

namespace Enumeration

/-- The enumeration without the texts that describe it. -/
def core (e : Enumeration) : Enumeration := { name := e.name, value := e.value, mask := e.mask }

@[simp] theorem isDefault_core (e : Enumeration) : e.core.isDefault = e.isDefault := rfl

@[simp] theorem selects_core (e : Enumeration) (v : Nat) : e.core.selects v = e.selects v := rfl

/-- Both could be selected by one value, whatever stands in front of them. -/
def Clashes (a b : Enumeration) : Prop :=
  (a.isDefault = true ∧ b.isDefault = true) ∨
    (a.isDefault = false ∧ b.isDefault = false ∧ ∃ v, a.selects v = true ∧ b.selects v = true)

end Enumeration

theorem find?_of_imp {α : Type} {p q : α → Bool} {as : List α} {a : α} (ha : as.find? p = some a)
    (hqp : ∀ b, q b = true → p b = true) (hq : q a = true) : as.find? q = some a := by
  obtain ⟨-, front, back, rfl, hfront⟩ := List.find?_eq_some_iff_append.1 ha
  refine List.find?_eq_some_iff_append.2 ⟨hq, front, back, rfl, fun b hb => ?_⟩
  have hpb := hfront b hb
  cases hqb : q b with
  | false => rfl
  | true => simp [hqp b hqb] at hpb

theorem find?_eq_of_perm {α : Type} {p : α → Bool} {as bs : List α} (h : as.Perm bs)
    (hsame : ∀ a b, as.find? p = some a → bs.find? p = some b → a = b) :
    as.find? p = bs.find? p := by
  cases ha : as.find? p with
  | none =>
    refine (List.find?_eq_none.2 fun b hb => ?_).symm
    exact List.find?_eq_none.1 ha b (h.mem_iff.2 hb)
  | some a =>
    have hmem : a ∈ bs := h.mem_iff.1 (List.mem_of_find?_eq_some ha)
    obtain ⟨b, hb⟩ := Option.isSome_iff_exists.1
      (List.find?_isSome.2 ⟨a, hmem, List.find?_some ha⟩)
    rw [hb, hsame a b ha hb]

/-- The first element of a kind is the same in both orders of a list if of any two of the kind the
same comes first. -/
theorem find?_eq_of_first {α : Type} [DecidableEq α] {p : α → Bool} {as bs : List α}
    (h : as.Perm bs) (hfirst : ∀ a b, p a = true → p b = true →
      as.find? (fun c => c = a ∨ c = b) = bs.find? fun c => c = a ∨ c = b) :
    as.find? p = bs.find? p := by
  refine find?_eq_of_perm h fun a b ha hb => ?_
  have hpa : p a = true := List.find?_some ha
  have hpb : p b = true := List.find?_some hb
  have himp (c : α) (hc : decide (c = a ∨ c = b) = true) : p c = true := by
    rcases of_decide_eq_true hc with rfl | rfl
    · exact hpa
    · exact hpb
  have hab := hfirst a b hpa hpb
  rw [find?_of_imp ha himp (by simp), find?_of_imp hb himp (by simp)] at hab
  exact Option.some.inj hab

namespace Field

theorem selected?_map_core (es : List Enumeration) (v : Nat) :
    selected? (es.map Enumeration.core) v = (selected? es v).map Enumeration.core := by
  unfold selected?
  rw [List.find?_map, List.find?_map, Option.map_or]
  rfl

/-- Every value selects an enumeration of the same name, value and mask, or none, in both lists. -/
def SameMeaning (as bs : List Enumeration) : Prop :=
  ∀ v, (selected? as v).map Enumeration.core = (selected? bs v).map Enumeration.core

/-- Of two enumerations that clash, the same stands first in both lists. -/
def AgreeInOrder (as bs : List Enumeration) : Prop :=
  ∀ a b : Enumeration, a.Clashes b →
    (as.map Enumeration.core).find? (fun e => e = a ∨ e = b) =
      (bs.map Enumeration.core).find? fun e => e = a ∨ e = b

variable {f g : Field} {as bs : List Enumeration}

theorem AgreeInOrder.sameMeaning (h : AgreeInOrder as bs)
    (hperm : (as.map Enumeration.core).Perm (bs.map Enumeration.core)) : SameMeaning as bs := by
  intro v
  rw [← selected?_map_core, ← selected?_map_core, selected?, selected?]
  congr 1
  · refine find?_eq_of_first hperm fun a b ha hb => h a b (.inr ?_)
    simp only [Bool.and_eq_true, Bool.not_eq_true'] at ha hb
    exact ⟨ha.1, hb.1, v, ha.2, hb.2⟩
  · exact find?_eq_of_first hperm fun a b ha hb => h a b (.inl ⟨ha, hb⟩)

/-- Enumerations that do not clash may stand in any order. -/
theorem agreeInOrder_of_perm (hperm : (as.map Enumeration.core).Perm (bs.map Enumeration.core))
    (hunique : ∀ a ∈ as.map Enumeration.core, ∀ b ∈ as.map Enumeration.core, a.Clashes b → a = b) :
    AgreeInOrder as bs := by
  intro a b hclash
  refine find?_eq_of_perm hperm fun c d hc hd => ?_
  have hcmem := List.mem_of_find?_eq_some hc
  have hdmem := hperm.mem_iff.2 (List.mem_of_find?_eq_some hd)
  have hcab : c = a ∨ c = b := by simpa using List.find?_some hc
  have hdab : d = a ∨ d = b := by simpa using List.find?_some hd
  rcases hcab with rfl | rfl
  · rcases hdab with rfl | rfl
    · rfl
    · exact hunique c hcmem d hdmem hclash
  · rcases hdab with rfl | rfl
    · exact (hunique d hdmem c hcmem hclash).symm
    · rfl

theorem perm_core_of_similar (h : f.similar g = true) :
    (f.enumerations.map Enumeration.core).Perm (g.enumerations.map Enumeration.core) := by
  simp only [similar, Bool.and_eq_true, beq_iff_eq] at h
  obtain ⟨⟨-, hlength⟩, halike⟩ := h
  have hbyName (es : List Enumeration) : (byName es).Perm es := List.mergeSort_perm ..
  have hpairs : List.Forall₂
      (fun a b => (a.name == b.name && a.equivalent b none none) = true)
      (byName f.enumerations) (byName g.enumerations) := by
    refine forall₂_of_all_zip ?_ halike
    rw [(hbyName _).length_eq, (hbyName _).length_eq, hlength]
  have hcores : (byName f.enumerations).map Enumeration.core =
      (byName g.enumerations).map Enumeration.core := by
    refine map_eq_map_of_forall₂ (hpairs.imp fun a b hab => ?_)
    simp only [Enumeration.equivalent, Bool.and_eq_true, beq_iff_eq] at hab
    obtain ⟨hname, ⟨hmask, hvalue⟩, -⟩ := hab
    rw [Enumeration.core, Enumeration.core, hname, hmask, hvalue]
  exact ((hbyName _).map _).symm.trans (hcores ▸ (hbyName _).map _)

/-- The field without what sharing enumerations changes. -/
def frame (f : Field) : Field := { f with derivedFrom := none, enumerations := [] }

/-- What sharing makes of a field: itself, or one with the enumerations of a field of `out` that has
the same and does not share those of another one itself. -/
inductive SharedIn (out : List Field) (f : Field) : Field → Prop
  | kept : SharedIn out f f
  | shared {e : Field} (own : f.derivedFrom = none) (source_mem : e ∈ out)
      (source_own : e.derivedFrom = none) (alike : e.similar f = true) :
      SharedIn out f { f with derivedFrom := some e.name, enumerations := [] }

namespace SharedIn

variable {out out' : List Field}

theorem mono (h : SharedIn out f g) (hout : ∀ e ∈ out, e ∈ out') : SharedIn out' f g := by
  cases h with
  | kept => exact .kept
  | shared own hmem hown halike => exact .shared own (hout _ hmem) hown halike

theorem frame_eq (h : SharedIn out f g) : g.frame = f.frame := by cases h <;> rfl

/-- What has its own enumerations afterwards is as it was. -/
theorem eq_of_own (h : SharedIn out f g) (hg : g.derivedFrom = none) : g = f := by
  cases h with
  | kept => rfl
  | shared => cases hg

end SharedIn

end Field

namespace Register

open RegisterMap.Field

variable {r : Register} {f g : Field} {fs : List Field}

theorem sharedIn_shareOne (earlier : List Field) (f : Field) :
    SharedIn earlier f (shareOne earlier f) := by
  unfold shareOne
  split
  · exact .kept
  · rename_i hown
    split
    · rename_i e he
      have hfound := List.find?_some he
      simp only [Bool.and_eq_true, Option.isNone_iff_eq_none] at hfound
      exact .shared hown (List.mem_of_find?_eq_some he) hfound.1 hfound.2
    · exact .kept

/-- Each field of a list shares enumerations of the earlier ones and the results. -/
theorem sharedIn_shareEnumerations (earlier fs : List Field) :
    List.Forall₂ (SharedIn (earlier ++ shareEnumerations earlier fs)) fs
      (shareEnumerations earlier fs) := by
  induction fs generalizing earlier with
  | nil => exact .nil
  | cons f fs ih =>
    have htail := ih (earlier ++ [shareOne earlier f])
    rw [List.append_assoc] at htail
    refine .cons ?_ htail
    exact (sharedIn_shareOne earlier f).mono fun e he => List.mem_append_left _ he

theorem sharedIn_extractSimilarFields (r : Register) :
    List.Forall₂ (SharedIn r.extractSimilarFields.fields) r.sortedFields
      r.extractSimilarFields.fields :=
  sharedIn_shareEnumerations [] r.sortedFields

theorem mem_sortedFields : f ∈ r.sortedFields ↔ f ∈ r.fields :=
  (List.mergeSort_perm ..).mem_iff

/-- Each field of the result is what sharing made of a field of the register. -/
theorem exists_sharedIn (hg : g ∈ r.extractSimilarFields.fields) :
    ∃ f ∈ r.fields, SharedIn r.extractSimilarFields.fields f g := by
  obtain ⟨f, hf, hfg⟩ := exists_mem_of_forall₂ (sharedIn_extractSimilarFields r) hg
  exact ⟨f, mem_sortedFields.1 hf, hfg⟩

theorem exists_of_mem {R : Field → Field → Prop} (h : List.Forall₂ R r.sortedFields fs)
    (hf : f ∈ r.fields) : ∃ g ∈ fs, R f g := by
  have hflip : List.Forall₂ (fun g f => R f g) fs r.sortedFields := h.flip
  exact exists_mem_of_forall₂ hflip (mem_sortedFields.2 hf)

/-! ## Validity -/

theorem map_frame_extractSimilarFields (r : Register) :
    (r.extractSimilarFields.fields.map frame).Perm (r.fields.map frame) := by
  have hframes : r.extractSimilarFields.fields.map frame = r.sortedFields.map frame :=
    map_eq_map_of_forall₂ ((sharedIn_extractSimilarFields r).flip.imp fun _ _ h => h.frame_eq)
  exact hframes ▸ (List.mergeSort_perm ..).map _

theorem pairwise_apart_iff_map_frame :
    (exclusive fs).Pairwise Field.Apart ↔ (exclusive (fs.map frame)).Pairwise Field.Apart := by
  have hexclusive : exclusive (fs.map frame) = (exclusive fs).map frame := List.filter_map ..
  rw [hexclusive, List.pairwise_map]
  rfl

/-- Sharing enumerations can only make a register invalid through what shares them. -/
theorem admits_extractSimilarFields_iff (hr : r.Admits r.fields) :
    r.Admits r.extractSimilarFields.fields ↔
      ∀ g ∈ r.extractSimilarFields.fields,
        ∃ es, enumerationsAmong r.extractSimilarFields.fields g = .ok es := by
  have hframe (g : Field) (hg : g ∈ r.extractSimilarFields.fields) :
      ∃ f ∈ r.fields, g.bitWidth = f.bitWidth ∧ g.bitEnd = f.bitEnd ∧ g.access = f.access := by
    obtain ⟨f, hf, hfg⟩ := exists_sharedIn hg
    exact ⟨f, hf, by cases hfg <;> exact ⟨rfl, rfl, rfl⟩⟩
  refine ⟨Admits.enumerations, fun h => ⟨fun g hg => ?_, fun g hg => ?_, ?_, fun g hg => ?_, h⟩⟩
  · obtain ⟨f, hf, hwidth, -, -⟩ := hframe g hg
    rw [hwidth]
    exact hr.nonempty f hf
  · obtain ⟨f, hf, -, hend, -⟩ := hframe g hg
    rw [hend]
    exact hr.inside f hf
  · have hperm := (map_frame_extractSimilarFields r).filter (!·.ignoreOverlap)
    rw [pairwise_apart_iff_map_frame]
    exact (hperm.pairwise_iff Or.symm).2 (pairwise_apart_iff_map_frame.1 hr.apart)
  · obtain ⟨f, hf, -, -, haccess⟩ := hframe g hg
    rw [haccess]
    exact hr.access f hf

/-- Every field that shared enumerations before still finds a field with enumerations of its own
under that name. -/
def KeepsSources (r : Register) : Prop :=
  ∀ f ∈ r.fields, ∀ source, f.derivedFrom = some source →
    ∃ s ∈ r.extractSimilarFields.fields, s.name = source ∧ s.derivedFrom = none

theorem validate_extractSimilarFields_iff (hr : r.validate = .ok ()) :
    r.extractSimilarFields.validate = .ok () ↔ r.KeepsSources := by
  have hvalid : r.extractSimilarFields.validate = .ok () ↔ r.Admits r.extractSimilarFields.fields :=
    validate_eq_ok_iff_admits.trans
      ⟨fun h => ⟨h.nonempty, h.inside, h.apart, h.access, h.enumerations⟩,
        fun h => ⟨h.nonempty, h.inside, h.apart, h.access, h.enumerations⟩⟩
  rw [hvalid, admits_extractSimilarFields_iff (validate_eq_ok_iff_admits.1 hr)]
  simp only [exists_enumerationsAmong_iff]
  constructor
  · intro h f hf source hsource
    -- It shares enumerations already, so it is one of the result as well.
    obtain ⟨g, hg, hfg⟩ := exists_of_mem (sharedIn_extractSimilarFields r) hf
    cases hfg with
    | kept => exact h _ hg source hsource
    | shared own =>
      rw [hsource] at own
      cases own
  · intro h g hg source hsource
    obtain ⟨f, hf, hfg⟩ := exists_sharedIn hg
    cases hfg with
    | kept => exact h _ hf source hsource
    | @shared e _ hmem hown _ =>
      cases hsource
      exact ⟨e, hmem, rfl, hown⟩

/-! ## Meaning -/

/-- Every value means in the second register's field what it means in that of the first. -/
def KeepsMeaning (r q : Register) (f g : Field) : Prop :=
  ∃ es es', r.enumerationsOf f = .ok es ∧ q.enumerationsOf g = .ok es' ∧ SameMeaning es es'

/-- There are fields of the name that have different enumerations of their own. -/
def IsAmbiguous (r : Register) (name : String) : Prop :=
  ∃ s ∈ r.fields, ∃ t ∈ r.fields, (s.name = name ∧ s.derivedFrom = none) ∧
    (t.name = name ∧ t.derivedFrom = none) ∧ s.enumerations ≠ t.enumerations

theorem not_isAmbiguous_of_nodup (h : (r.fields.map Field.name).Nodup) (name : String) :
    ¬r.IsAmbiguous name := by
  rintro ⟨s, hs, t, ht, ⟨rfl, -⟩, ⟨htname, -⟩, hdiffer⟩
  exact hdiffer (congrArg enumerations (List.inj_on_of_nodup_map h hs ht htname.symm))

/-- What can become of a field that does not keep the meaning of its values. -/
inductive LosesMeaning (r : Register) (f g : Field) : Prop
  /-- It shared enumerations before, and no field of that name has any of its own now. -/
  | source {name : String} (same : g = f) (shares : f.derivedFrom = some name)
      (lost : r.extractSimilarFields.enumerationsOf g = fail (.unresolvedDerivation name))
  /-- It shares enumerations with a field, and another one of that name has different ones. -/
  | name {name : String} (shares : g.derivedFrom = some name) (ambiguous : r.IsAmbiguous name)
  /-- It had the enumerations that it shares now in another order, in which one of them stood behind
  another one that describes a value of it. -/
  | order {e : Field} (mem : e ∈ r.fields) (shares : g.derivedFrom = some e.name)
      (alike : e.similar f = true) (disagree : ¬AgreeInOrder e.enumerations f.enumerations)

theorem mem_of_own (hg : g ∈ r.extractSimilarFields.fields) (hown : g.derivedFrom = none) :
    g ∈ r.fields := by
  obtain ⟨f, hf, hfg⟩ := exists_sharedIn hg
  exact hfg.eq_of_own hown ▸ hf

theorem enumerationsOf_of_own (r : Register) (h : f.derivedFrom = none) :
    r.enumerationsOf f = .ok f.enumerations := by
  rw [enumerationsOf, enumerationsAmong, h]

/-- A field that is not changed keeps the meaning of its values, or what it shares is lost. -/
theorem keepsMeaning_of_kept (hr : r.validate = .ok ()) (hf : f ∈ r.fields) :
    KeepsMeaning r r.extractSimilarFields f f ∨ LosesMeaning r f f := by
  cases hname : f.derivedFrom with
  | none =>
    exact .inl ⟨f.enumerations, f.enumerations, enumerationsOf_of_own r hname,
      enumerationsOf_of_own _ hname, fun _ => rfl⟩
  | some name =>
    obtain ⟨es, hes⟩ := (validate_eq_ok_iff_admits.1 hr).enumerations f hf
    obtain ⟨s, hs, rfl⟩ := (enumerationsAmong_eq_ok_iff hname).1 hes
    cases ht : enumerationSource? r.extractSimilarFields.fields name with
    | none =>
      refine .inr (.source rfl hname ?_)
      rw [enumerationsOf, enumerationsAmong, hname]
      simp only [ht]
    | some t =>
      obtain ⟨htmem, htname, htown⟩ := mem_of_enumerationSource? ht
      by_cases hsame : s.enumerations = t.enumerations
      · exact .inl ⟨_, _, hes, (enumerationsAmong_eq_ok_iff hname).2 ⟨t, ht, hsame.symm⟩,
          fun _ => rfl⟩
      · obtain ⟨hsmem, hsown⟩ := mem_of_enumerationSource? hs
        exact .inr (.name hname
          ⟨s, hsmem, t, mem_of_own htmem htown, hsown, ⟨htname, htown⟩, hsame⟩)

/-- A field that takes over the enumerations of another one keeps the meaning of its values if it
finds these, in an order that makes no difference. -/
theorem keepsMeaning_of_shared {e : Field} (hown : f.derivedFrom = none)
    (he : e ∈ r.extractSimilarFields.fields) (heown : e.derivedFrom = none)
    (halike : e.similar f = true) :
    KeepsMeaning r r.extractSimilarFields f
        { f with derivedFrom := some e.name, enumerations := [] } ∨
      LosesMeaning r f { f with derivedFrom := some e.name, enumerations := [] } := by
  obtain ⟨t, ht⟩ := exists_enumerationSource? he heown
  obtain ⟨htmem, htname, htown⟩ := mem_of_enumerationSource? ht
  by_cases hsame : e.enumerations = t.enumerations
  · by_cases hagree : AgreeInOrder e.enumerations f.enumerations
    · have hmeaning := hagree.sameMeaning (perm_core_of_similar halike)
      exact .inl ⟨_, _, enumerationsOf_of_own r hown,
        (enumerationsAmong_eq_ok_iff rfl).2 ⟨t, ht, hsame.symm⟩, fun v => (hmeaning v).symm⟩
    · exact .inr (.order (mem_of_own he heown) rfl halike hagree)
  · exact .inr (.name rfl
      ⟨e, mem_of_own he heown, t, mem_of_own htmem htown, ⟨rfl, heown⟩, ⟨htname, htown⟩, hsame⟩)

theorem keepsMeaning_of_sharedIn (hr : r.validate = .ok ()) (hf : f ∈ r.fields)
    (h : SharedIn r.extractSimilarFields.fields f g) :
    KeepsMeaning r r.extractSimilarFields f g ∨ LosesMeaning r f g := by
  cases h with
  | kept => exact keepsMeaning_of_kept hr hf
  | shared own hmem hown halike => exact keepsMeaning_of_shared own hmem hown halike

/-- Where fields of one name have the same enumerations, and equal ones agree in the order of those
that clash, the register stays valid exactly when every field keeps the meaning of its values. -/
theorem validate_iff_keepsMeaning (hr : r.validate = .ok ()) (hnames : ∀ name, ¬r.IsAmbiguous name)
    (horder : ∀ e ∈ r.fields, ∀ f ∈ r.fields, e.similar f = true →
      AgreeInOrder e.enumerations f.enumerations) :
    r.extractSimilarFields.validate = .ok () ↔
      List.Forall₂ (KeepsMeaning r r.extractSimilarFields) r.sortedFields
        r.extractSimilarFields.fields := by
  have hshared := sharedIn_extractSimilarFields r
  constructor
  · intro hvalid
    refine forall₂_imp_of_mem hshared fun f hf g hg hfg => ?_
    have hf := mem_sortedFields.1 hf
    rcases keepsMeaning_of_sharedIn hr hf hfg with hkeeps | hloses
    · exact hkeeps
    · cases hloses with
      | source _ _ lost =>
        obtain ⟨es, hes⟩ := (validate_eq_ok_iff_admits.1 hvalid).enumerations _ hg
        cases lost.symm.trans hes
      | name _ ambiguous => exact absurd ambiguous (hnames _)
      | order mem _ alike disagree => exact absurd (horder _ mem _ hf alike) disagree
  · intro hkeeps
    refine (validate_extractSimilarFields_iff hr).2 fun f hf name hname => ?_
    obtain ⟨g, hg, hfg, es, es', -, hes', -⟩ :=
      exists_of_mem (hshared.mp (fun _ _ => And.intro) hkeeps) hf
    cases hfg with
    | kept => exact exists_enumerationsAmong_iff.1 ⟨es', hes'⟩ name hname
    | shared own =>
      rw [hname] at own
      cases own

/-- **Sharing enumerations.** A valid register stays valid exactly when every field that shared
enumerations before still finds them. Every field keeps the meaning of its values or loses it in
one of three ways, two of which depend on names that are there twice or on the order of
enumerations. -/
theorem extractSimilarFields_meaning (hr : r.validate = .ok ()) :
    (r.extractSimilarFields.validate = .ok () ↔ r.KeepsSources) ∧
    List.Forall₂ (fun f g => KeepsMeaning r r.extractSimilarFields f g ∨ LosesMeaning r f g)
      r.sortedFields r.extractSimilarFields.fields ∧
    ((∀ name, ¬r.IsAmbiguous name) →
      (∀ e ∈ r.fields, ∀ f ∈ r.fields, e.similar f = true →
        AgreeInOrder e.enumerations f.enumerations) →
      (r.extractSimilarFields.validate = .ok () ↔
        List.Forall₂ (KeepsMeaning r r.extractSimilarFields) r.sortedFields
          r.extractSimilarFields.fields)) := by
  refine ⟨validate_extractSimilarFields_iff hr, ?_, validate_iff_keepsMeaning hr⟩
  exact forall₂_imp_of_mem (sharedIn_extractSimilarFields r) fun f hf g _ hfg =>
    keepsMeaning_of_sharedIn hr (mem_sortedFields.1 hf) hfg

section Example

private def off : Enumeration := { name := "off", value := 0, mask := 1 }

private def on : Enumeration := { name := "on", value := 1, mask := 1 }

/-- A field of two bits. -/
private def pair (name : String) (bitOffset : Nat) (enumerations : List Enumeration) : Field :=
  { name, bitOffset, bitWidth := 2, enumerations }

private def sharing (name : String) (bitOffset : Nat) (source : String) : Field :=
  { name, bitOffset, bitWidth := 2, derivedFrom := some source }

private def word (fields : List Field) : Register := { Register.plain "CTRL" 0 32 with fields }

/-- Two switches, and a copy of the first. -/
private def switches : Register :=
  word [pair "B" 2 [on, off], pair "A" 0 [off, on], sharing "C" 4 "A"]

theorem extractSimilarFields_meaning_switches : switches.validate = .ok () ∧
    switches.extractSimilarFields.fields =
      [pair "A" 0 [off, on], sharing "B" 2 "A", sharing "C" 4 "A"] ∧
    List.Forall₂ (KeepsMeaning switches switches.extractSimilarFields) switches.sortedFields
      switches.extractSimilarFields.fields := by
  have hvalid : switches.validate = .ok () := by decide +kernel
  have hresult : switches.extractSimilarFields =
      word [pair "A" 0 [off, on], sharing "B" 2 "A", sharing "C" 4 "A"] := by cbv
  have hshared : switches.extractSimilarFields.validate = .ok () := by
    rw [hresult]
    decide +kernel
  refine ⟨hvalid, congrArg Register.fields hresult,
    ((extractSimilarFields_meaning hvalid).2.2 ?_ ?_).1 hshared⟩
  · exact not_isAmbiguous_of_nodup (by decide +kernel)
  · intro e he f _ halike
    refine agreeInOrder_of_perm (perm_core_of_similar halike) fun a ha b hb hclash => ?_
    have hswitch : ∀ e ∈ switches.fields, ∀ a ∈ e.enumerations.map Enumeration.core,
        a = off ∨ a = on := by decide +kernel
    have happart (v : Nat) : ¬(off.selects v = true ∧ on.selects v = true) := by
      simp only [Enumeration.selects, off, on, beq_iff_eq]
      omega
    rcases hswitch e he a ha with rfl | rfl
    · rcases hswitch e he b hb with rfl | rfl
      · rfl
      · rcases hclash with ⟨h, -⟩ | ⟨-, -, v, hv⟩
        · cases h
        · exact absurd hv (happart v)
    · rcases hswitch e he b hb with rfl | rfl
      · rcases hclash with ⟨h, -⟩ | ⟨-, -, v, hv⟩
        · cases h
        · exact absurd hv.symm (happart v)
      · rfl

/-- A copy of the second field. -/
private def orphaned : Register :=
  word [pair "A" 0 [off, on], pair "B" 2 [off, on], sharing "C" 4 "B"]

private def low : Enumeration := { name := "low", value := 1, mask := 1 }

private def high : Enumeration := { name := "high", value := 2, mask := 2 }

/-- Both patterns describe the value 3. -/
private def reordered : Register := word [pair "A" 0 [low, high], pair "B" 2 [high, low]]

/-- Two fields of one name. -/
private def repeated : Register :=
  word [pair "A" 0 [off, on], pair "A" 2 [low, high], pair "B" 4 [low, high]]

/-- A field can lose the enumerations that it shares, the one that comes first for a value, or all
of them to those of another field. -/
theorem extractSimilarFields_loses :
    (orphaned.validate = .ok () ∧
      orphaned.extractSimilarFields.validate =
        .error ⟨[.register "CTRL"], .unresolvedDerivation "B"⟩) ∧
    (reordered.validate = .ok () ∧
      reordered.extractSimilarFields.fields = [pair "A" 0 [low, high], sharing "B" 2 "A"] ∧
      (reordered.enumerationsOf (pair "B" 2 [high, low])).map (selected? · 3) = .ok (some high) ∧
      (reordered.extractSimilarFields.enumerationsOf (sharing "B" 2 "A")).map (selected? · 3) =
        .ok (some low)) ∧
    (repeated.validate = .ok () ∧
      repeated.extractSimilarFields.fields =
        [pair "A" 0 [off, on], pair "A" 2 [low, high], sharing "B" 4 "A"] ∧
      (repeated.enumerationsOf (pair "B" 4 [low, high])).map (selected? · 1) = .ok (some low) ∧
      (repeated.extractSimilarFields.enumerationsOf (sharing "B" 4 "A")).map (selected? · 1) =
        .ok (some on)) := by
  have horphaned : orphaned.extractSimilarFields =
      word [pair "A" 0 [off, on], sharing "B" 2 "A", sharing "C" 4 "B"] := by cbv
  have hreordered : reordered.extractSimilarFields =
      word [pair "A" 0 [low, high], sharing "B" 2 "A"] := by cbv
  have hrepeated : repeated.extractSimilarFields =
      word [pair "A" 0 [off, on], pair "A" 2 [low, high], sharing "B" 4 "A"] := by cbv
  rw [horphaned, hreordered, hrepeated]
  decide +kernel

end Example

end Register

end RegisterMap
