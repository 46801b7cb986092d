import RegisterMap.Proofs.Element
import RegisterMap.Proofs.Svd.Register

/-!
# Trees of registers that were written

A list of registers and clusters is read from its elements with every register settled
(`Element.listOfSvd_inside`): registers find their sources in the lists that were read before, and
the parts of a cluster that are no members are passed over.
-/

namespace RegisterMap

open Svd Xml

/-! ## Heads of clusters -/

namespace Cluster

variable {c : Cluster}

/-- The texts are read as they are, the numbers fit, and the cluster is written at all. -/
@[mk_iff]
structure IsSpelled (c : Cluster) : Prop where
  intact : c.deleted = false
  name : IsVerbatim c.name
  description : IsVerbatim c.description
  offset : c.offset < Bits.limit 64
  dim : ∀ d ∈ c.dim, d.IsSpelled

instance : DecidablePred IsSpelled := fun c => decidable_of_iff' _ (isSpelled_iff c)

/-- The parts of a cluster's element in front of its members. -/
def parts (c : Cluster) : List Node :=
  c.flags.toSvd ++ ((c.dim.map Dim.toSvd).getD []) ++ [.leaf "name" c.name] ++
    unlessEmpty "description" c.description ++ [hex "addressOffset" c.offset]

theorem toSvd_eq (c : Cluster) (members : List Node) :
    c.toSvd members = .group "cluster" (c.parts ++ members) := rfl

theorem isSound_parts (h : c.IsSpelled) : ∀ n ∈ c.parts, n.IsSound := by
  obtain ⟨-, hname, hdescription, -, hdim⟩ := h
  simp only [parts, List.forall_mem_append, List.forall_mem_singleton]
  refine ⟨⟨⟨⟨c.flags.isSound_toSvd, ?_⟩, hname.isSound (by decide)⟩,
    isSound_unlessEmpty (by decide) hdescription⟩, isSound_hex (by decide) _⟩
  cases hd : c.dim with
  | none => nofun
  | some d => exact Dim.isSound_toSvd (hdim d hd)

/-- The array that the parts of an element tell about, if they do. -/
def dimDraft (c : Cluster) : Dim.Draft := (c.dim.map Dim.draft).getD {}

theorem finish_dimDraft (c : Cluster) : c.dimDraft.finish = .ok c.dim := by
  unfold dimDraft
  cases c.dim with
  | none => rfl
  | some d => exact d.finish_draft

theorem readsAll_parts (h : c.IsSpelled) (depth : Nat) :
    ReadsAll Draft.step depth {} c.parts { head := { c with dim := none }, dim := c.dimDraft } := by
  obtain ⟨hdeleted, hname, hdescription, hoffset, hdim⟩ := h
  let flagged (f : Flags) : Draft := { head := { flags := f } }
  let arrayed (a : Dim.Draft) : Draft := { head := { flags := c.flags }, dim := a }
  let named : Cluster := { flags := c.flags, name := c.name }
  have hflags : ReadsAll Draft.step depth {} c.flags.toSvd (arrayed {}) :=
    Flags.readsAll flagged c.flags fun _ _ => rfl
  have hdims : ReadsAll Draft.step depth (arrayed {}) ((c.dim.map Dim.toSvd).getD [])
      (arrayed c.dimDraft) := by
    unfold dimDraft
    cases hd : c.dim with
    | none => exact .nil _
    | some d =>
      refine Dim.readsAll arrayed (hdim d hd) fun a b tag cs h => ?_
      simp only [Draft.step, arrayed, h, bind, Except.bind, pure, Except.pure]
  have hnamed : Reads Draft.step depth (arrayed c.dimDraft) (.leaf "name" c.name)
      { head := named, dim := c.dimDraft } :=
    .leaf hname fun cs hcs => by
      simp [Draft.step, Dim.Draft.accept?, hcs, bind, Except.bind, pure, Except.pure, arrayed,
        named]
  have hdescribed : ReadsAll Draft.step depth { head := named, dim := c.dimDraft }
      (unlessEmpty "description" c.description)
      { head := { named with description := c.description }, dim := c.dimDraft } :=
    .unlessEmpty (.leaf hdescription fun cs hcs => by
      simp [Draft.step, Dim.Draft.accept?, hcs, bind, Except.bind, pure, Except.pure]) fun he => by
        simp [named, he]
  have hplaced : Reads Draft.step depth
      { head := { named with description := c.description }, dim := c.dimDraft }
      (hex "addressOffset" c.offset)
      { head := { named with description := c.description, offset := c.offset },
        dim := c.dimDraft } :=
    .hex hoffset fun cs hcs => by
      simp [Draft.step, Dim.Draft.accept?, hcs, bind, Except.bind, pure, Except.pure]
  have hend : ({ named with description := c.description, offset := c.offset } : Cluster) =
      { c with dim := none } := by
    simp [named, hdeleted]
  rw [← hend]
  exact (((hflags.append hdims).append hnamed.singleton).append hdescribed).append
    hplaced.singleton

/-- The parts are an instruction or an element that is no member. -/
theorem eq_of_mem_parts {n : Node} (hn : n ∈ c.parts) :
    (∃ target, n = .instruction target none) ∨
      ∃ tag ∈ headTags, ∃ cs, n = .element ⟨"", tag⟩ [] cs := by
  simp only [parts, List.mem_append, List.mem_singleton] at hn
  rcases hn with (((hn | hn) | rfl) | hn) | rfl
  · obtain ⟨x, -, rfl⟩ := List.mem_map.1 hn
    exact .inl ⟨_, rfl⟩
  · cases hd : c.dim with
    | none => simp [hd] at hn
    | some d =>
      simp only [hd, Option.map_some, Option.getD_some, Dim.toSvd, List.mem_append, List.mem_cons,
        List.not_mem_nil, or_false] at hn
      rcases hn with (rfl | rfl) | hn
      · exact .inr ⟨_, by decide, _, rfl⟩
      · exact .inr ⟨_, by decide, _, rfl⟩
      · split at hn
        · cases hn
        · rw [List.mem_singleton.1 hn]
          exact .inr ⟨_, by decide, _, rfl⟩
  · exact .inr ⟨_, by decide, _, rfl⟩
  · unfold unlessEmpty at hn
    split at hn
    · cases hn
    · rw [List.mem_singleton.1 hn]
      exact .inr ⟨_, by decide, _, rfl⟩
  · exact .inr ⟨_, by decide, _, rfl⟩

/-- The head is read from the element, whatever the members are. -/
theorem ofSvd_inside (h : c.IsSpelled) (members : List Node) (depth : Nat)
    (hmembers : ∀ n ∈ members, ∃ tag, (tag = "register" ∨ tag = "cluster") ∧
      ∃ as cs, n.laid (depth + 1) = .element ⟨"", tag⟩ as cs) :
    ofSvd [] (Node.inside depth (c.parts ++ members)) = .ok c := by
  let d : Draft := { head := { c with dim := none }, dim := c.dimDraft }
  have hpass : ReadsAll Draft.step (depth + 1) d members d := by
    refine .of_forall fun n hn => ?_
    obtain ⟨tag, htag, as, cs, hlaid⟩ := hmembers n hn
    rw [Reads, hlaid]
    rcases htag with rfl | rfl <;>
      simp [Draft.step, Dim.Draft.accept?, bind, Except.bind, pure, Except.pure]
  rw [ofSvd, if_neg (by simp [Node.attribute?])]
  simp only [bind, Except.bind, pure, Except.pure, d, finish_dimDraft, within_ok,
    ((readsAll_parts h _).append hpass).inside fun _ _ => rfl]

end Cluster

namespace Element

mutual

/-- The registers and the heads of clusters can be written and read. -/
def isSpelled : Element → Bool
  | register r => decide r.IsSpelled
  | cluster c es => decide c.IsSpelled && areSpelled es

/-- All elements can be written and read. -/
def areSpelled : List Element → Bool
  | [] => true
  | e :: es => e.isSpelled && areSpelled es

end

mutual

/-- The registers of the element find their sources in the lists. -/
def findsSources (scopes : List (List Element)) : Element → Bool
  | register r => decide (r.FindsSources scopes)
  | cluster _ es => findSources scopes [] es

/-- The registers of the elements find their sources in front of them or in the lists around. -/
def findSources (outer : List (List Element)) (done : List Element) : List Element → Bool
  | [] => true
  | e :: es => e.findsSources (done :: outer) && findSources outer (done ++ [e]) es

end

/-! ## Reading lists -/

/-- The list with the element of one more node. -/
def listStep (parent : String) (outer : List (List Element)) (inForce : Defaults)
    (done : List Element) (n : Node) : Except Failure (List Element) := do
  return done ++ (← ofSvd? parent (done :: outer) inForce n).toList

theorem listOfSvd_eq_foldlM (parent : String) (outer : List (List Element)) (inForce : Defaults)
    (done : List Element) (ns : List Node) :
    listOfSvd parent outer inForce done ns = ns.foldlM (listStep parent outer inForce) done := by
  induction ns generalizing done with
  | nil => rw [listOfSvd]; rfl
  | cons n ns ih =>
    rw [listOfSvd, List.foldlM_cons, listStep]
    cases ofSvd? parent (done :: outer) inForce n with
    | error f => rfl
    | ok e => exact ih _

theorem listStep_text (parent : String) (outer : List (List Element)) (inForce : Defaults)
    (done : List Element) (s : String) :
    listStep parent outer inForce done (.text s) = .ok done := by
  simp [listStep, ofSvd?, bind, Except.bind, pure, Except.pure]

/-- The elements with every register as it is read again. -/
def settledAll (es : List Element) : List Element := mapRegistersAll Register.settled es

variable {inForce : Defaults}

/-- The element has one node, which is read as it is settled, behind the lists in front of it. -/
def IsRead (inForce : Defaults) (e : Element) : Prop :=
  ∀ scopes, e.isSpelled = true → e.findsSources scopes = true → ∀ parent, ∃ n tag,
    e.toSvd inForce = [n] ∧ (tag = "register" ∨ tag = "cluster") ∧
      Yields (fun as cs => ofSvd? parent (scopes.map settledAll) inForce (.element ⟨"", tag⟩ as cs))
        tag n (some (e.mapRegisters Register.settled))

theorem isRead_register (r : Register) : (register r).IsRead inForce := by
  intro scopes hspelled hfinds parent
  have hspelled : r.IsSpelled := by simpa [isSpelled] using hspelled
  have hfinds : r.FindsSources scopes := by simpa [findsSources] using hfinds
  refine ⟨r.toSvd inForce, "register", ?_, .inl rfl, ?_⟩
  · rw [toSvd, hspelled.intact, if_neg Bool.false_ne_true]
  · refine (Register.yields_toSvd hspelled hfinds).imp fun as cs hcs => ?_
    rw [ofSvd?]
    simp only [bind, Except.bind, pure, Except.pure]
    rw [show scopes.map settledAll = scopes.map (mapRegistersAll Register.settled) from rfl, hcs]
    rfl

section Lists

variable {es done : List Element} {outer : List (List Element)} {n : Node}

theorem exists_of_mem_listToSvd (hn : n ∈ listToSvd inForce es) :
    ∃ e ∈ es, n ∈ e.toSvd inForce := by
  induction es with
  | nil => cases hn
  | cons e es ih =>
    rw [listToSvd, List.mem_append] at hn
    rcases hn with hn | hn
    · exact ⟨e, List.mem_cons_self, hn⟩
    · obtain ⟨f, hf, hn⟩ := ih hn
      exact ⟨f, List.mem_cons_of_mem _ hf, hn⟩

theorem exists_findsSources (hfinds : findSources outer done es = true) {e : Element}
    (he : e ∈ es) : ∃ scopes, e.findsSources scopes = true := by
  induction es generalizing done with
  | nil => cases he
  | cons f fs ih =>
    obtain ⟨hf, hfs⟩ := Bool.and_eq_true_iff.1 hfinds
    rcases List.mem_cons.1 he with rfl | he
    · exact ⟨_, hf⟩
    · exact ih hfs he

theorem isSpelled_of_mem (hspelled : areSpelled es = true) {e : Element} (he : e ∈ es) :
    e.isSpelled = true := by
  induction es with
  | nil => cases he
  | cons f fs ih =>
    obtain ⟨hf, hfs⟩ := Bool.and_eq_true_iff.1 hspelled
    rcases List.mem_cons.1 he with rfl | he
    · exact hf
    · exact ih hfs he

/-- Every node of a list is sound and a register or a cluster. -/
theorem member_of_mem_listToSvd (h : ∀ e ∈ es, e.IsRead inForce) (hspelled : areSpelled es = true)
    (hfinds : findSources outer done es = true) (hn : n ∈ listToSvd inForce es) :
    n.IsSound ∧ ∀ depth, ∃ tag, (tag = "register" ∨ tag = "cluster") ∧
      ∃ as cs, n.laid depth = .element ⟨"", tag⟩ as cs := by
  obtain ⟨e, he, hn⟩ := exists_of_mem_listToSvd hn
  obtain ⟨scopes, hscopes⟩ := exists_findsSources hfinds he
  obtain ⟨m, tag, hm, htag, hsound, hlaid⟩ :=
    h e he scopes (isSpelled_of_mem hspelled he) hscopes ""
  rw [hm, List.mem_singleton] at hn
  subst hn
  exact ⟨hsound, fun depth =>
    let ⟨as, cs, hlaid, _⟩ := hlaid depth
    ⟨tag, htag, as, cs, hlaid⟩⟩

/-- The elements of a list are read one behind the other. -/
theorem readsAll_listToSvd (h : ∀ e ∈ es, e.IsRead inForce) (hspelled : areSpelled es = true)
    (hfinds : findSources outer done es = true) (parent : String) (depth : Nat) :
    ReadsAll (listStep parent (outer.map settledAll) inForce) depth (settledAll done)
      (listToSvd inForce es) (settledAll (done ++ es)) := by
  induction es generalizing done with
  | nil =>
    rw [List.append_nil]
    exact .nil _
  | cons e es ih =>
    obtain ⟨he, hes⟩ := List.forall_mem_cons.1 h
    obtain ⟨hspelled, hspelleds⟩ := Bool.and_eq_true_iff.1 hspelled
    obtain ⟨hfinds, hfindss⟩ := Bool.and_eq_true_iff.1 hfinds
    obtain ⟨n, tag, hn, -, hyields⟩ := he _ hspelled hfinds parent
    have hone : Reads (listStep parent (outer.map settledAll) inForce) depth (settledAll done) n
        (settledAll (done ++ [e])) :=
      hyields.reads fun as cs hcs => by
        rw [List.map_cons] at hcs
        rw [listStep, hcs]
        simp [settledAll, mapRegistersAll_eq_map, bind, Except.bind, pure, Except.pure]
    rw [listToSvd, hn]
    have hrest := ih hes hspelleds hfindss
    rw [List.append_assoc, List.singleton_append] at hrest
    exact hone.singleton.append hrest

end Lists

/-- The parts of a cluster that are no members add nothing to the list of its members. -/
theorem readsAll_parts (c : Cluster) (outer : List (List Element)) (done : List Element)
    (depth : Nat) : ReadsAll (listStep "cluster" outer inForce) depth done c.parts done := by
  refine .of_forall fun n hn => ?_
  rcases Cluster.eq_of_mem_parts hn with ⟨target, rfl⟩ | ⟨tag, htag, cs, rfl⟩
  · rw [Reads, Node.laid_instruction, listStep]
    simp [ofSvd?, bind, Except.bind, pure, Except.pure]
  · obtain ⟨as, cs, hlaid⟩ := Node.exists_laid_element ⟨"", tag⟩ [] cs depth
    rw [Reads, hlaid, listStep]
    simp only [Cluster.headTags, List.mem_cons, List.not_mem_nil, or_false] at htag
    rcases htag with rfl | rfl | rfl | rfl | rfl | rfl <;>
      simp [ofSvd?, Cluster.headTags, bind, Except.bind, pure, Except.pure]

theorem isRead_cluster (c : Cluster) (es : List Element) (h : ∀ e ∈ es, e.IsRead inForce) :
    (cluster c es).IsRead inForce := by
  intro scopes hspelled hfinds parent
  obtain ⟨hc, hes⟩ : c.IsSpelled ∧ areSpelled es = true := by simpa [isSpelled] using hspelled
  have hfinds : findSources scopes [] es = true := by simpa [findsSources] using hfinds
  have hmembers {n : Node} (hn : n ∈ listToSvd inForce es) :=
    member_of_mem_listToSvd h hes hfinds hn
  refine ⟨c.toSvd (listToSvd inForce es), "cluster", ?_, .inr rfl, ?_⟩
  · rw [toSvd, hc.intact, if_neg Bool.false_ne_true]
  · rw [Cluster.toSvd_eq]
    refine .own (by decide) (List.forall_mem_append.2
      ⟨Cluster.isSound_parts hc, fun n hn => (hmembers hn).1⟩) fun depth => ?_
    have hhead := Cluster.ofSvd_inside hc (listToSvd inForce es) depth
      fun n hn => (hmembers hn).2 _
    have hlist : listOfSvd "cluster" (scopes.map settledAll) inForce []
        (Node.inside depth (c.parts ++ listToSvd inForce es)) = .ok (settledAll es) := by
      rw [listOfSvd_eq_foldlM]
      have hrest := readsAll_listToSvd h hes hfinds "cluster" (depth + 1)
      exact ((readsAll_parts c _ _ _).append hrest).inside (listStep_text _ _ _)
    rw [ofSvd?]
    simp only [hhead, hlist, within_ok, bind, Except.bind, pure, Except.pure]
    rfl

theorem isRead (e : Element) : e.IsRead inForce := by
  induction e using tree_induction with
  | register r => exact isRead_register r
  | cluster c es ih => exact isRead_cluster c es ih

/-- **Lists of registers and clusters.** They are read from the nodes that are written for them,
with every register settled. -/
theorem listOfSvd_inside (inForce : Defaults) {es : List Element} (hspelled : areSpelled es = true)
    (hfinds : findSources [] [] es = true) (parent : String) (depth : Nat) :
    listOfSvd parent [] inForce [] (Node.inside depth (listToSvd inForce es)) =
      .ok (settledAll es) := by
  rw [listOfSvd_eq_foldlM]
  exact (readsAll_listToSvd (fun e _ => isRead e) hspelled hfinds parent (depth + 1)).inside
    (listStep_text _ _ _)

theorem isSound_listToSvd (inForce : Defaults) {es : List Element} (hspelled : areSpelled es = true)
    (hfinds : findSources [] [] es = true) : ∀ n ∈ listToSvd inForce es, n.IsSound :=
  fun _ hn => (member_of_mem_listToSvd (fun e _ => isRead e) hspelled hfinds hn).1

end Element

end RegisterMap
