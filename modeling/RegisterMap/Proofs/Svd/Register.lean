import RegisterMap.Proofs.Descent
import RegisterMap.Proofs.Svd.Field
import RegisterMap.Svd.Register

/-!
# Registers that were written

A register is read from its element as `Register.settled`, in which the fields are settled and a
derived register has none of its own. What an element tells about an array and its flags is read
alike for registers and clusters (`Dim.readsAll`, `Flags.readsAll`).
-/

namespace RegisterMap

open Svd Xml

/-! ## Arrays and flags -/

namespace Dim

variable {d : Dim}

/-- The numbers fit, and the indexes, unless they are counted, are read one by one as they are. -/
@[mk_iff]
structure IsSpelled (d : Dim) : Prop where
  count : d.count < Bits.limit 64
  stride : d.stride < Bits.limit 64
  indexes : d.isSequential = false → ∀ ix ∈ d.indexes, IsVerbatim ix ∧ ',' ∉ ix.toList
  no_range : d.isSequential = false → d.count = 1 →
    ∀ ix ∈ d.indexes, Numeral.range? ix.toList = none

instance : DecidablePred IsSpelled := fun d => decidable_of_iff' _ (isSpelled_iff d)

/-- What the parts of an element tell about the array. -/
def draft (d : Dim) : Draft where
  count := some d.count
  stride := some d.stride
  indexes := if d.isSequential then none else some d.indexes

theorem finish_draft (d : Dim) : d.draft.finish = .ok (some d) := by
  obtain ⟨stride, indexes⟩ := d
  by_cases h : (⟨stride, indexes⟩ : Dim).isSequential = true
  · have hindexes : indexes = (List.range indexes.length).map toString := by
      simpa [isSequential, count] using h
    simp only [draft, Draft.finish, h, if_true, counted, count]
    rw [← hindexes]
  · simp [draft, Draft.finish, h, count]

theorem indexes_eq (h : d.IsSpelled) (hd : d.isSequential = false) :
    IsVerbatim (",".intercalate d.indexes) ∧
      Numeral.indexes (",".intercalate d.indexes) = .ok d.indexes := by
  have hall := h.indexes hd
  have hne : d.indexes ≠ [] := by
    intro he
    simp [isSequential, count, he] at hd
  have htrim : ∀ ix ∈ d.indexes, Text.IsTrimmed ix.toList := fun ix hix => (hall ix hix).1.2
  refine ⟨isVerbatim_intercalate (by decide) (fun ix hix => (hall ix hix).1)
    (Numeral.isTrimmed_indexes htrim), Numeral.indexes_intercalate hne htrim
    (fun ix hix => (hall ix hix).2) fun ix hix => h.no_range hd ?_ ix ?_⟩ <;>
  simp [count, hix]

theorem isSound_toSvd (h : d.IsSpelled) : ∀ n ∈ d.toSvd, n.IsSound := by
  rw [toSvd, List.forall_mem_append, List.forall_mem_cons, List.forall_mem_singleton]
  refine ⟨⟨isSound_decimal (by decide) _, isSound_hex (by decide) _⟩, ?_⟩
  split
  · nofun
  · rename_i hd
    exact List.forall_mem_singleton.2 ((indexes_eq h (by simpa using hd)).1.isSound (by decide))

/-- A reader that takes over what an element tells about an array. -/
theorem readsAll {σ : Type} {step : σ → Node → Except Failure σ} {depth : Nat} (put : Draft → σ)
    (h : d.IsSpelled)
    (hstep : ∀ (a b : Draft) tag cs, a.accept? tag cs = .ok (some b) →
      step (put a) (.element ⟨"", tag⟩ [] cs) = .ok (put b)) :
    ReadsAll step depth (put {}) d.toSvd (put d.draft) := by
  have hindexes := indexes_eq h
  obtain ⟨hcount, hstride, -, -⟩ := h
  refine .append (t := put { count := some d.count, stride := some d.stride })
    (.cons (t := put { count := some d.count }) (.decimal hcount fun cs hcs => hstep _ _ _ _ ?_)
      (Reads.singleton (.hex hstride fun cs hcs => hstep _ _ _ _ ?_)))
    (.ite (fun hd => ?_) fun hd => ?_)
  · simp [Draft.accept?, hcs, bind, Except.bind, pure, Except.pure]
  · simp [Draft.accept?, hcs, bind, Except.bind, pure, Except.pure]
  · rw [draft, if_pos hd]
    exact .nil _
  · obtain ⟨hverbatim, hread⟩ := hindexes (by simpa using hd)
    rw [draft, if_neg hd]
    refine Reads.singleton (.leaf hverbatim fun cs hcs => hstep _ _ _ _ ?_)
    simp [Draft.accept?, hcs, hread, bind, Except.bind, pure, Except.pure]

end Dim

namespace Flags

theorem isSound_toSvd (f : Flags) : ∀ n ∈ f.toSvd, n.IsSound := by
  have htargets : ∀ t ∈ ["isolated", "hide", "keepAsArray", "doDerivedMacros"],
      isPlainWord t.toList = true ∧ t ≠ "xml" := by decide
  intro n hn
  obtain ⟨⟨b, target⟩, hx, rfl⟩ := List.mem_map.1 hn
  have hmem : target ∈ ["isolated", "hide", "keepAsArray", "doDerivedMacros"] := by
    simpa using List.mem_map_of_mem (f := Prod.snd) (List.mem_filter.1 hx).1
  exact Node.isSound_instruction (htargets target hmem).1 (htargets target hmem).2 rfl

/-- A reader that takes over the flags of instructions. -/
theorem readsAll {σ : Type} {step : σ → Node → Except Failure σ} {depth : Nat} (put : Flags → σ)
    (f : Flags)
    (hstep : ∀ f target, step (put f) (.instruction target none) = .ok (put (f.step target))) :
    ReadsAll step depth (put {}) f.toSvd (put f) := by
  have hreads (f : Flags) (target : String) :
      Reads step depth (put f) (.instruction target none) (put (f.step target)) := by
    rw [Reads, Node.laid_instruction, hstep]
  obtain ⟨isolated, hidden, keepAsArray, derivedMacros⟩ := f
  cases isolated <;> cases hidden <;> cases keepAsArray <;> cases derivedMacros <;>
    repeat' first | exact .nil _ | refine .cons (hreads _ _) ?_

end Flags

/-! ## Registers -/

namespace Register

variable {r g : Register} {scopes : List (List Element)} {inForce : Defaults}

/-- The texts are read as they are, the numbers fit, the register is written at all, and so can its
fields be, which a derived register does not have written. -/
@[mk_iff]
structure IsSpelled (r : Register) : Prop where
  intact : r.deleted = false
  named : r.name ≠ ""
  name : IsVerbatim r.name
  description : IsVerbatim r.description
  offset : r.offset < Bits.limit 64
  defaults : r.defaults.FitsWords
  dim : ∀ d ∈ r.dim, d.IsSpelled
  derivedFrom : ∀ s ∈ r.derivedFrom, IsReference s
  fields : r.derivedFrom = none → ∀ f ∈ r.fields, f.IsSpelled

instance : DecidablePred IsSpelled := fun r => decidable_of_iff' _ (isSpelled_iff r)

/-- A derived register finds its source in front of it, a register that is not derived, and does
not take over its description where its own is left out. The fields of a register find theirs. -/
def FindsSources (scopes : List (List Element)) (r : Register) : Prop :=
  (∀ s ∈ r.derivedFrom, ∃ g ∈ scopes.findSome? (Element.findIn? s),
    g.derivedFrom = none ∧ (r.description = "" → g.description = "")) ∧
  (r.derivedFrom = none → ∀ i, ∀ h : i < r.fields.length,
    r.fields[i].FindsSource r.access (r.fields.take i))

instance (scopes : List (List Element)) : DecidablePred (FindsSources scopes) :=
  fun _ => inferInstanceAs (Decidable (_ ∧ _))

/-- The register as it is read again. -/
def settled (r : Register) : Register :=
  { r with
    fields := if r.derivedFrom.isNone then r.fields.map (Field.settled r.access) else []
    deleted := false }

/-- The parts of a register's element in front of its fields. -/
def parts (inForce : Defaults) (r : Register) : List Node :=
  r.flags.toSvd ++ ((r.dim.map Dim.toSvd).getD []) ++
    [.leaf "name" r.name] ++ unlessEmpty "description" r.description ++
    [hex "addressOffset" r.offset] ++
    r.defaults.toSvd (if r.derivedFrom.isNone then some inForce else none)

theorem toSvd_eq (inForce : Defaults) (r : Register) :
    r.toSvd inForce = derivable "register" r.derivedFrom (r.parts inForce ++
      if r.derivedFrom.isNone && !r.fields.isEmpty then
        [.group "fields" (r.fields.map (Field.toSvd r.access))]
      else []) := rfl

theorem isSound_parts (h : r.IsSpelled) (inForce : Defaults) :
    ∀ n ∈ r.parts inForce, n.IsSound := by
  obtain ⟨-, -, hname, hdescription, -, -, hdim, -, -⟩ := h
  simp only [parts, List.forall_mem_append, List.forall_mem_singleton]
  refine ⟨⟨⟨⟨⟨r.flags.isSound_toSvd, ?_⟩, hname.isSound (by decide)⟩,
    isSound_unlessEmpty (by decide) hdescription⟩, isSound_hex (by decide) _⟩,
    isSound_defaults _ _⟩
  cases hd : r.dim with
  | none => nofun
  | some d => exact Dim.isSound_toSvd (hdim d hd)

/-- What a register starts from, apart from what its element tells anew. -/
structure Begins (inForce : Defaults) (r g : Register) : Prop where
  derivedFrom : g.derivedFrom = r.derivedFrom
  fields : g.fields = []
  dim : g.dim = none
  flags : g.flags = {}
  deleted : g.deleted = false
  description : r.description = "" → g.description = ""
  defaults : r.derivedFrom = none → g.defaults = inForce

/-- The array that the parts of an element tell about, if they do. -/
def dimDraft (r : Register) : Dim.Draft := (r.dim.map Dim.draft).getD {}

theorem finish_dimDraft (r : Register) : r.dimDraft.finish = .ok r.dim := by
  unfold dimDraft
  cases r.dim with
  | none => rfl
  | some d => exact d.finish_draft

theorem readsAll_parts (h : r.IsSpelled) (hg : Begins inForce r g) (depth : Nat) :
    ReadsAll Draft.step depth { register := g } (r.parts inForce)
      { register := { r with dim := none, fields := [] }, dim := r.dimDraft } := by
  obtain ⟨hdeleted, -, hname, hdescription, hoffset, ⟨hwidth, hvalue, hmask⟩, hdim, -, -⟩ := h
  let flagged (f : Flags) : Draft := { register := { g with flags := f } }
  let arrayed (a : Dim.Draft) : Draft := { register := { g with flags := r.flags }, dim := a }
  let named : Register := { g with flags := r.flags, name := r.name }
  let placed : Register := { named with description := r.description, offset := r.offset }
  let put (d : Defaults) : Draft :=
    { register := { placed with
        width := d.width, access := d.access, resetValue := d.resetValue, resetMask := d.resetMask }
      dim := r.dimDraft }
  have hflags : ReadsAll Draft.step depth { register := g } r.flags.toSvd (arrayed {}) := by
    have hstart : ({ register := g } : Draft) = flagged {} := by
      simp only [flagged, ← hg.flags]
    rw [hstart]
    exact Flags.readsAll flagged r.flags fun _ _ => rfl
  have hdims : ReadsAll Draft.step depth (arrayed {}) ((r.dim.map Dim.toSvd).getD [])
      (arrayed r.dimDraft) := by
    unfold dimDraft
    cases hd : r.dim with
    | none => exact .nil _
    | some d =>
      refine Dim.readsAll arrayed (hdim d hd) fun a b tag cs h => ?_
      simp only [Draft.step, arrayed, h, bind, Except.bind, pure, Except.pure]
  have hnamed : Reads Draft.step depth (arrayed r.dimDraft) (.leaf "name" r.name)
      { register := named, dim := r.dimDraft } :=
    .leaf hname fun cs hcs => by
      simp [Draft.step, Draft.stepElement, Dim.Draft.accept?, hcs, bind, Except.bind, arrayed,
        named]
  have hdescribed : ReadsAll Draft.step depth { register := named, dim := r.dimDraft }
      (unlessEmpty "description" r.description)
      { register := { named with description := r.description }, dim := r.dimDraft } :=
    .unlessEmpty (.leaf hdescription fun cs hcs => by
      simp [Draft.step, Draft.stepElement, Dim.Draft.accept?, hcs, bind, Except.bind]) fun he => by
        simp [named, he, hg.description he]
  have hplaced : Reads Draft.step depth
      { register := { named with description := r.description }, dim := r.dimDraft }
      (hex "addressOffset" r.offset) (put g.defaults) :=
    .hex hoffset fun cs hcs => by
      simp [Draft.step, Draft.stepElement, Dim.Draft.accept?, hcs, bind, Except.bind, pure,
        Except.pure, put, placed, named, defaults]
  have hdefaults : ReadsAll Draft.step depth (put g.defaults)
      (r.defaults.toSvd (if r.derivedFrom.isNone then some inForce else none))
      (put r.defaults) := by
    refine .defaults put (fun e => .decimal32 hwidth fun cs hcs => ?_)
      (fun e => .access fun cs hcs => ?_) (fun e => .hex hvalue fun cs hcs => ?_)
      (fun e => .hex hmask fun cs hcs => ?_) fun f hf => ?_
    iterate 4
      simp [Draft.step, Draft.stepElement, Dim.Draft.accept?, hcs, bind, Except.bind, pure,
        Except.pure, put]
    split at hf
    · rename_i hnone
      rw [hg.defaults (by simpa using hnone)]
      exact (Option.some.inj hf).symm
    · cases hf
  have hend : put r.defaults =
      { register := { r with dim := none, fields := [] }, dim := r.dimDraft } := by
    simp [put, placed, named, defaults, hg.derivedFrom, hg.fields, hg.dim, hg.deleted, hdeleted]
  rw [← hend]
  exact ((((hflags.append hdims).append hnamed.singleton).append hdescribed).append
    hplaced.singleton).append hdefaults

/-! ### Sources -/

theorem findIn?_settled (s : String) (es : List Element) :
    Element.findIn? s (Element.mapRegistersAll settled es) = (Element.findIn? s es).map settled :=
  Element.findIn?_mapRegistersAll (f := settled) (fun _ => rfl) s es

theorem findSome?_map_settled (s : String) (scopes : List (List Element)) :
    (scopes.map (Element.mapRegistersAll settled)).findSome? (Element.findIn? s) =
      (scopes.findSome? (Element.findIn? s)).map settled :=
  Element.findSome?_mapRegistersAll (f := settled) (fun _ => rfl) s scopes

/-- A register starts from its source, or from the defaults. -/
theorem start_settled (h : r.FindsSources scopes) (inForce : Defaults) :
    ∃ g, start (scopes.map (Element.mapRegistersAll settled)) inForce
        (r.derivedFrom.map fun s => ⟨⟨"", "derivedFrom"⟩, s⟩).toList = .ok g ∧
      Begins inForce r g := by
  rw [start, attribute?_derivedFrom]
  cases hr : r.derivedFrom with
  | none => exact ⟨_, rfl, hr.symm, rfl, rfl, rfl, rfl, fun _ => rfl, fun _ => rfl⟩
  | some s =>
    obtain ⟨g, hfind, hown, hdescription⟩ := h.1 s hr
    have hname : g.name = s := by
      obtain ⟨es, -, hes⟩ := List.exists_of_findSome?_eq_some hfind
      exact Element.name_of_findIn? es hes
    refine ⟨g.settled.derive, ?_, ?_, rfl, rfl, rfl, rfl, hdescription, ?_⟩
    · simp only [findSome?_map_settled, Option.mem_def.1 hfind, Option.map_some]
    · rw [hr, derive, settled, hown, ← hname]
      rfl
    · intro hnone
      rw [hr] at hnone
      cases hnone

/-! ### Fields -/

/-- Each field is read from its element behind the fields in front of it. -/
theorem yields_fields (hr : r.derivedFrom = none) (h : r.IsSpelled)
    (hsources : r.FindsSources scopes) {done rest : List Field} {f : Field}
    (hsplit : r.fields = done ++ f :: rest) :
    Yields (Field.ofSvd (done.map (Field.settled r.access))) "field" (f.toSvd r.access)
      (f.settled r.access) := by
  have hf : f.FindsSource r.access done := by
    have hlt : done.length < r.fields.length := by simp [hsplit]
    have hfind := hsources.2 hr done.length hlt
    simpa [hsplit] using hfind
  exact Field.yields_toSvd (h.fields hr f (by simp [hsplit])) hf

theorem isSound_fields (hr : r.derivedFrom = none) (h : r.IsSpelled)
    (hsources : r.FindsSources scopes) :
    ∀ n ∈ r.fields.map (Field.toSvd r.access), n.IsSound := by
  intro n hn
  obtain ⟨f, hf, rfl⟩ := List.mem_map.1 hn
  obtain ⟨done, rest, hsplit⟩ := List.append_of_mem hf
  exact (yields_fields hr h hsources hsplit).1

theorem foldlM_addSvd (hr : r.derivedFrom = none) (h : r.IsSpelled)
    (hsources : r.FindsSources scopes) (depth : Nat) :
    (Node.inside depth (r.fields.map (Field.toSvd r.access))).foldlM addSvd
      { r with fields := [] } = .ok r.settled := by
  let st (done : List Field) : Register := { r with fields := done.map (Field.settled r.access) }
  have hend : st r.fields = r.settled := by
    simp [st, settled, hr, h.intact]
  rw [← hend]
  refine (ReadsAll.map st fun done f rest hsplit => ?_).inside fun _ _ => rfl
  refine (yields_fields hr h hsources hsplit).reads fun as cs hcs => ?_
  have hreserved : ((f.settled r.access).name == "RESERVED") = false :=
    beq_false_of_ne (h.fields hr f (by simp [hsplit])).not_reserved
  have hcs : Field.ofSvd (st done).fields as cs = .ok (f.settled r.access) := hcs
  simp only [addSvd, beq_self_eq_true, if_true, hcs, within_ok, bind, Except.bind, hreserved,
    Bool.false_eq_true, if_false, pure, Except.pure]
  simp [st]

/-- The register that is left when the parts of its element have been read. -/
theorem ofSvd_eq {as : List Attribute} {cs : List Node} {nodes : Option (List Node)}
    (hstart : start scopes inForce as = .ok g) (hne : r.name ≠ "")
    (hparts : cs.foldlM Draft.step { register := g } =
      .ok { register := { r with dim := none, fields := [] }, dim := r.dimDraft,
            fields := nodes }) :
    ofSvd scopes inForce as cs = (nodes.getD []).foldlM addSvd { r with fields := [] } := by
  have hempty : r.name.isEmpty = false := by simpa using hne
  rw [ofSvd, hstart]
  simp only [bind, Except.bind, hparts, hempty, Bool.false_eq_true, if_false, pure, Except.pure,
    finish_dimDraft, within_ok]

/-- The register is read from its element behind the lists in front of it. -/
theorem yields_toSvd (h : r.IsSpelled) (hsources : r.FindsSources scopes) :
    Yields (ofSvd (scopes.map (Element.mapRegistersAll settled)) inForce) "register"
      (r.toSvd inForce) r.settled := by
  obtain ⟨g, hstart, hg⟩ := start_settled hsources inForce
  have hparts := readsAll_parts h hg
  have hsound := isSound_parts h inForce
  have hfields := fun hr => foldlM_addSvd hr h hsources
  have hnodes := fun hr => isSound_fields hr h hsources
  obtain ⟨hdeleted, hne, -, -, -, -, -, hreference, -⟩ := h
  rw [toSvd_eq]
  split
  · rename_i hsome
    obtain ⟨hnone, -⟩ := Bool.and_eq_true_iff.1 hsome
    have hnone : r.derivedFrom = none := by simpa using hnone
    have hnodes := hnodes hnone
    have hgroup (depth : Nat) (d : Draft) (hd : d.register.derivedFrom = none) :
        Reads Draft.step depth d (.group "fields" (r.fields.map (Field.toSvd r.access)))
          { d with fields := some (Node.inside depth (r.fields.map (Field.toSvd r.access))) } := by
      rw [Reads, Node.group, Node.laid_of_isSound hnodes]
      simp [Draft.step, Draft.stepElement, Dim.Draft.accept?, bind, Except.bind, hd]
    refine .derivable (by decide) hreference (List.forall_mem_append.2
      ⟨hsound, List.forall_mem_singleton.2 (Node.isSound_group (by decide) hnodes)⟩)
      fun depth => ?_
    have hall := ((hparts (depth + 1)).append (hgroup _ _ hnone).singleton).inside fun _ _ => rfl
    rw [ofSvd_eq hstart hne hall]
    exact hfields hnone _
  · rename_i hsome
    have hempty : r.settled = { r with fields := [] } := by
      rw [settled, hdeleted]
      congr 1
      split <;> simp_all
    rw [List.append_nil, hempty]
    refine .derivable (by decide) hreference hsound fun depth => ?_
    rw [ofSvd_eq hstart hne ((hparts _).inside fun _ _ => rfl)]
    rfl

end Register

end RegisterMap
