import Mathlib.Data.List.TakeWhile
import Mathlib.Tactic.MkIffOfInductiveProp
import RegisterMap.Proofs.Svd.Content
import RegisterMap.Svd.Field

/-!
# Fields that were written

A field that is spelled so that it can be read (`Field.IsSpelled`) is read from its element as
`Field.settled`: an access that is that of its register is left to the register, and the
enumerations of a derived field are those of its source.
-/

namespace RegisterMap

open Svd Xml

/-! ## Enumerations -/

namespace Enumeration

variable {e : Enumeration} {width : Nat}

/-- The texts are read as they are, and the text of a value, which only the default may lack,
makes the enumeration in a field of the width. -/
@[mk_iff]
structure IsSpelled (width : Nat) (e : Enumeration) : Prop where
  name : IsVerbatim e.name
  description : IsVerbatim e.description
  value : e.isDefault = true ∨
    ∃ t ∈ e.text, IsVerbatim t ∧ (e.withText t width).toOption = some e

instance (width : Nat) : DecidablePred (IsSpelled width) :=
  fun e => decidable_of_iff' _ (isSpelled_iff width e)

/-- The enumeration as it is read again. A default has nothing but its name and description. -/
def settled (e : Enumeration) : Enumeration := if e.isDefault then e.asDefault else e

/-- What a text makes of an enumeration depends on its name and description alone. -/
theorem withText_head (e : Enumeration) (text : String) (width : Nat) :
    withText { name := e.name, description := e.description } text width =
      e.withText text width := by
  unfold withText
  simp only

@[simp] theorem isDefault_settled (e : Enumeration) : e.settled.isDefault = e.isDefault := by
  unfold settled
  split <;> simp_all

/-- The enumeration is read from its element. -/
theorem yields_toSvd (h : e.IsSpelled width) :
    Yields (fun _ => ofSvd width) "enumeratedValue" e.toSvd e.settled := by
  obtain ⟨hname, hdescription, hvalue⟩ := h
  let d : Draft := { enumeration := { name := e.name, description := e.description } }
  have hhead (depth : Nat) : ReadsAll Draft.step depth {}
      (.leaf "name" e.name :: unlessEmpty "description" e.description) d := by
    refine .cons (t := { enumeration.name := e.name })
      (.leaf hname fun cs hcs => by simp [Draft.step, hcs])
      (.unlessEmpty (.leaf hdescription fun cs hcs => by simp [Draft.step, hcs, d]) fun he => ?_)
    simp [d, he]
  have hsound : ∀ n ∈ Node.leaf "name" e.name :: unlessEmpty "description" e.description,
      n.IsSound :=
    List.forall_mem_cons.2
      ⟨hname.isSound (by decide), isSound_unlessEmpty (by decide) hdescription⟩
  rw [toSvd, settled]
  split
  · have hlast (depth : Nat) :
        Reads Draft.step depth d (.leaf "isDefault" "true") { d with isDefault := true } :=
      Reads.truth (b := true) fun cs hcs => by
        simp [Draft.step, hcs, bind, Except.bind, pure, Except.pure]
    refine .group (by decide) (List.forall_mem_append.2 ⟨hsound, ?_⟩) fun depth => ?_
    · exact List.forall_mem_singleton.2 (Node.isSound_leaf (by decide) (by decide))
    · rw [ofSvd, ((hhead _).append (hlast _).singleton).inside fun _ _ => rfl]
      rfl
  · rename_i hdefault
    obtain ⟨t, ht, hverbatim, htext⟩ := hvalue.resolve_left hdefault
    have hlast (depth : Nat) :
        Reads Draft.step depth d (.leaf "value" t) { d with value := some t } :=
      .leaf hverbatim fun cs hcs => by simp [Draft.step, hcs]
    rw [Option.mem_def.1 ht]
    refine .group (by decide) (List.forall_mem_append.2 ⟨hsound, ?_⟩) fun depth => ?_
    · exact List.forall_mem_singleton.2 (hverbatim.isSound (by decide))
    · rw [ofSvd, ((hhead _).append (hlast _).singleton).inside fun _ _ => rfl]
      simp only [bind, Except.bind, d, Bool.false_eq_true, if_false]
      rw [withText_head, eq_ok_of_toOption htext]

end Enumeration

/-! ## Fields -/

namespace Field

variable {f g : Field} {register : Access} {before : List Field}

/-- The texts are read as they are, the numbers fit, and of the enumerations, which a derived field
does not have written, only the last may be the default. -/
@[mk_iff]
structure IsSpelled (f : Field) : Prop where
  name : IsVerbatim f.name
  not_reserved : f.name ≠ "RESERVED"
  description : IsVerbatim f.description
  bitOffset : f.bitOffset < Bits.limit 32
  bitWidth : f.bitWidth < Bits.limit 32
  derivedFrom : ∀ s ∈ f.derivedFrom, IsReference s
  enumerations : f.derivedFrom = none → ∀ e ∈ f.enumerations, e.IsSpelled f.bitWidth
  default_last : f.derivedFrom = none → ∀ e ∈ f.enumerations.dropLast, e.isDefault = false

instance : DecidablePred IsSpelled := fun f => decidable_of_iff' _ (isSpelled_iff f)

/-- The access that is written for the field, none for that of the register. -/
def writtenAccess (register : Access) (f : Field) : Option Access := f.access.filter (· != register)

/-- A derived field finds its source in front of it, a field that is not derived, and takes over
neither its description nor its access where its own are left out. -/
def FindsSource (register : Access) (before : List Field) (f : Field) : Prop :=
  ∀ s ∈ f.derivedFrom, ∃ g ∈ before.find? (·.name == s), g.derivedFrom = none ∧
    (f.description = "" → g.description = "") ∧
    (f.writtenAccess register = none → g.writtenAccess register = none)

instance (register : Access) (before : List Field) : DecidablePred (FindsSource register before) :=
  fun f => inferInstanceAs (Decidable (∀ s ∈ f.derivedFrom, _))

/-- The field as it is read again. -/
def settled (register : Access) (f : Field) : Field :=
  { f with
    access := f.writtenAccess register
    enumerations := if f.derivedFrom.isNone then f.enumerations.map Enumeration.settled else [] }

/-! ### Parts -/

/-- The parts of a field's element in front of its enumerations. -/
def parts (register : Access) (f : Field) : List Node :=
  (if f.ignoreOverlap then [.instruction "ignoreOverlap" none] else []) ++
    [.leaf "name" f.name] ++ unlessEmpty "description" f.description ++
    [decimal "bitOffset" f.bitOffset, decimal "bitWidth" f.bitWidth] ++
    ((f.writtenAccess register).map fun a => Node.leaf "access" a.name).toList

theorem isSound_parts (h : f.IsSpelled) (register : Access) :
    ∀ n ∈ f.parts register, n.IsSound := by
  obtain ⟨hname, -, hdescription, -⟩ := h
  simp only [parts, List.forall_mem_append, List.forall_mem_cons]
  refine ⟨⟨⟨⟨?_, hname.isSound (by decide), nofun⟩, isSound_unlessEmpty (by decide) hdescription⟩,
    isSound_decimal (by decide) _, isSound_decimal (by decide) _, nofun⟩, ?_⟩
  · split
    · exact List.forall_mem_singleton.2
        (Node.isSound_instruction (by decide) (by decide) (by decide))
    · nofun
  · intro n hn
    obtain ⟨a, -, rfl⟩ := Option.map_eq_some_iff.1 (Option.mem_toList.1 hn)
    exact (isVerbatim_name a).isSound (by decide)

/-- What a field starts from, apart from what its element tells anew. -/
structure Begins (register : Access) (f g : Field) : Prop where
  derivedFrom : g.derivedFrom = f.derivedFrom
  enumerations : g.enumerations = []
  ignoreOverlap : g.ignoreOverlap = false
  description : f.description = "" → g.description = ""
  access : f.writtenAccess register = none → g.access = none

theorem readsAll_parts (h : f.IsSpelled) (hg : Begins register f g) (depth : Nat) :
    ReadsAll Draft.step depth { field := g } (f.parts register)
      { field := { f with access := f.writtenAccess register, enumerations := [] } } := by
  obtain ⟨hname, -, hdescription, hoffset, hwidth, -, -, -⟩ := h
  let named : Field := { g with name := f.name, ignoreOverlap := f.ignoreOverlap }
  let placed : Field :=
    { named with description := f.description, bitOffset := f.bitOffset, bitWidth := f.bitWidth }
  have hflag : ReadsAll Draft.step depth { field := g }
      (if f.ignoreOverlap then [.instruction "ignoreOverlap" none] else [])
      { field := { g with ignoreOverlap := f.ignoreOverlap } } := by
    refine .ite (fun h => ?_) fun h => ?_
    · rw [h]
      exact Reads.singleton (by rw [Reads, Node.laid_instruction]; rfl)
    · rw [Bool.eq_false_iff.2 h, ← hg.ignoreOverlap]
      exact .nil _
  have hnamed : Reads Draft.step depth { field := { g with ignoreOverlap := f.ignoreOverlap } }
      (.leaf "name" f.name) { field := named } :=
    .leaf hname fun cs hcs => by simp [Draft.step, hcs, named]
  have hdescribed : ReadsAll Draft.step depth { field := named }
      (unlessEmpty "description" f.description)
      { field := { named with description := f.description } } :=
    .unlessEmpty (.leaf hdescription fun cs hcs => by simp [Draft.step, hcs]) fun he => by
      simp [named, he, hg.description he]
  have hbits : ReadsAll Draft.step depth { field := { named with description := f.description } }
      [decimal "bitOffset" f.bitOffset, decimal "bitWidth" f.bitWidth] { field := placed } := by
    refine .cons (t := { field := { named with
      description := f.description, bitOffset := f.bitOffset } })
      (.decimal32 hoffset fun cs hcs => ?_) (Reads.singleton (.decimal32 hwidth fun cs hcs => ?_))
    · simp [Draft.step, hcs, bind, Except.bind, pure, Except.pure]
    · simp [Draft.step, hcs, bind, Except.bind, pure, Except.pure, placed]
  have haccess : ReadsAll Draft.step depth { field := placed }
      ((f.writtenAccess register).map fun a => Node.leaf "access" a.name).toList
      { field := { f with access := f.writtenAccess register, enumerations := [] } } := by
    cases ha : f.writtenAccess register with
    | none =>
      have : placed = { f with access := none, enumerations := [] } := by
        simp [placed, named, hg.derivedFrom, hg.enumerations, hg.access ha]
      rw [this]
      exact .nil _
    | some a =>
      refine Reads.singleton (.access fun cs hcs => ?_)
      simp [Draft.step, hcs, bind, Except.bind, pure, Except.pure, placed, named, hg.derivedFrom,
        hg.enumerations]
  exact (((hflag.append hnamed.singleton).append hdescribed).append hbits).append haccess

/-! ### Sources -/

theorem find?_map_settled (before : List Field) (s : String) :
    (before.map (settled register)).find? (·.name == s) =
      (before.find? (·.name == s)).map (settled register) := by
  rw [List.find?_map]
  rfl

/-- A field starts from its source, or from nothing. -/
theorem start_settled (h : f.FindsSource register before) :
    ∃ g, start (before.map (settled register))
        (f.derivedFrom.map fun s => ⟨⟨"", "derivedFrom"⟩, s⟩).toList = .ok g ∧
      Begins register f g := by
  rw [start, attribute?_derivedFrom]
  cases hf : f.derivedFrom with
  | none => exact ⟨{}, rfl, hf.symm, rfl, rfl, fun _ => rfl, fun _ => rfl⟩
  | some s =>
    obtain ⟨g, hfind, hown, hdescription, haccess⟩ := h s hf
    have hname : g.name = s := by simpa using List.find?_some hfind
    refine ⟨(g.settled register).derive, ?_, ?_⟩
    · simp only [find?_map_settled, Option.mem_def.1 hfind, Option.map_some]
    · refine ⟨?_, rfl, rfl, hdescription, haccess⟩
      rw [hf, derive, settled, hown, ← hname]
      rfl

/-! ### Enumerations -/

/-- An enumeration goes behind those that are not the default. -/
theorem addEnumeration_eq (h : ∀ e ∈ f.enumerations, e.isDefault = false) (e : Enumeration) :
    f.addEnumeration e = .ok { f with enumerations := f.enumerations ++ [e] } := by
  have hany : f.enumerations.any Enumeration.isDefault = false := by simpa using h
  have hinsert : insertOrdered e f.enumerations = f.enumerations ++ [e] := by
    have hall : ∀ e ∈ f.enumerations, (!e.isDefault) = true := by simpa using h
    rw [insertOrdered, List.takeWhile_eq_self_iff.2 hall, List.dropWhile_eq_nil_iff.2 hall]
  rw [addEnumeration, hany, hinsert]
  simp

theorem addSvd_enumerations (hf : f.derivedFrom = none) (hnone : f.enumerations = [])
    {es : List Enumeration} (hes : ∀ e ∈ es, e.IsSpelled f.bitWidth)
    (hlast : ∀ e ∈ es.dropLast, e.isDefault = false) (depth : Nat) :
    f.addSvd (Node.inside depth (es.map Enumeration.toSvd)) =
      .ok { f with enumerations := es.map Enumeration.settled } := by
  let st (done : List Enumeration) : Field := { f with enumerations := done.map .settled }
  have hstart : st [] = f := by
    cases f
    cases hnone
    rfl
  have hstep (depth : Nat) (done : List Enumeration) (e : Enumeration) (rest : List Enumeration)
      (hsplit : es = done ++ e :: rest) :
      Reads (stepChild "enumeratedValue" fun f children => do
        f.addEnumeration (← within (.field f.name) (Enumeration.ofSvd f.bitWidth children)))
        depth (st done) e.toSvd (st (done ++ [e])) := by
    have hown : ∀ x ∈ (st done).enumerations, x.isDefault = false := by
      intro x hx
      obtain ⟨y, hy, rfl⟩ := List.mem_map.1 hx
      rw [Enumeration.isDefault_settled]
      refine hlast y ?_
      rw [hsplit, List.dropLast_append_cons]
      exact List.mem_append_left _ hy
    refine (Enumeration.yields_toSvd (hes e (by simp [hsplit]))).reads fun as cs hcs => ?_
    have hcs : Enumeration.ofSvd (st done).bitWidth cs = .ok e.settled := hcs
    simp only [stepChild, beq_self_eq_true, if_true, hcs, within_ok, bind, Except.bind,
      addEnumeration_eq hown]
    simp [st]
  have hall := (ReadsAll.map st (hstep (depth + 1))).inside fun _ _ => rfl
  rw [addSvd, if_neg (by simp [hf]), foldlM_childrenOf]
  rwa [hstart] at hall

/-! ### Elements -/

theorem toSvd_eq (register : Access) (f : Field) :
    f.toSvd register = derivable "field" f.derivedFrom (f.parts register ++
      if f.derivedFrom.isNone && !f.enumerations.isEmpty then
        [.group "enumeratedValues" (f.enumerations.map Enumeration.toSvd)]
      else []) := rfl

/-- The field is read from its element behind the fields in front of it. -/
theorem yields_toSvd (h : f.IsSpelled) (hsource : f.FindsSource register before) :
    Yields (ofSvd (before.map (settled register))) "field" (f.toSvd register)
      (f.settled register) := by
  obtain ⟨g, hstart, hg⟩ := start_settled hsource
  have hparts := readsAll_parts h hg
  have hsound := isSound_parts h register
  obtain ⟨-, -, -, -, -, hreference, hes, hlast⟩ := h
  rw [toSvd_eq]
  split
  · rename_i hsome
    obtain ⟨hnone, -⟩ := Bool.and_eq_true_iff.1 hsome
    have hnone : f.derivedFrom = none := by simpa using hnone
    have hes := hes hnone
    have hlast := hlast hnone
    have hvalues : ∀ n ∈ f.enumerations.map Enumeration.toSvd, n.IsSound := by
      simpa using fun e he => (Enumeration.yields_toSvd (hes e he)).1
    have hgroup (depth : Nat) (d : Draft) : Reads Draft.step depth d
        (.group "enumeratedValues" (f.enumerations.map Enumeration.toSvd))
        { d with
          enumerations := some (Node.inside depth (f.enumerations.map Enumeration.toSvd)) } := by
      rw [Reads, Node.group, Node.laid_of_isSound hvalues]
      simp [Draft.step]
    refine .derivable (by decide) hreference (List.forall_mem_append.2
      ⟨hsound, List.forall_mem_singleton.2 (Node.isSound_group (by decide) hvalues)⟩)
      fun depth => ?_
    rw [ofSvd, hstart]
    simp only [bind, Except.bind, bits, pure, Except.pure,
      ((hparts _).append (hgroup _ _).singleton).inside fun _ _ => rfl]
    rw [settled, if_pos (by simp [hnone])]
    exact addSvd_enumerations (f := { f with
      access := f.writtenAccess register, enumerations := [] }) hnone rfl hes hlast _
  · rename_i hsome
    have hempty : f.settled register =
        { f with access := f.writtenAccess register, enumerations := [] } := by
      rw [settled]
      congr 1
      split <;> simp_all
    rw [List.append_nil, hempty]
    refine .derivable (by decide) hreference hsound fun depth => ?_
    rw [ofSvd, hstart]
    simp only [bind, Except.bind, (hparts _).inside fun _ _ => rfl, bits, pure, Except.pure]

end Field

end RegisterMap
