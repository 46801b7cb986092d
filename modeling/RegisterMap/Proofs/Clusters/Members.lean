import RegisterMap.Proofs.Clusters.Grouping
import RegisterMap.Proofs.Descent
import RegisterMap.Proofs.Layout.Declarable

/-!
# Members of the clusters that were found

Grouping leaves each register of a peripheral where it is, or takes it into an array of clusters,
one member of which stands for it in its place (`Rule.Folded`). What else it leaves are the clusters
there were, in order, and the arrays of clusters it made (`Rule.Origin`). `Reached` collects what
stays true while one rule is applied after the other.
-/

namespace RegisterMap.Clusters

open Element

/-- The register `s` of `es` was folded into an array of clusters in `fs`. The member `m` of the
cluster, which is the first instance `f` of `es` but for its name and offset, stands for it: it has
the member's name and, in the element of the array with its index, its offset. -/
structure Rule.Folded (rule : Rule) (es fs : List Element) (c : Cluster) (m f s : Register) :
    Prop where
  cluster_mem : ∃ members, .cluster c members ∈ fs ∧ .register m ∈ members
  cluster_intact : c.deleted = false
  first_mem : .register f ∈ es
  first_intact : f.deleted = false
  member_eq : m = { f with name := m.name, offset := m.offset, deleted := false }
  sameMember : rule.SameMember f s
  place : ∃ d k part, c.dim = some d ∧ rule.part? s.name = some part ∧ part.member = m.name ∧
    d.indexes[k]? = some part.index ∧ s.offset = c.offset + m.offset + k * d.stride

/-- Where the elements come from that grouping leaves: they were there, or they are an array of
clusters of first instances. -/
inductive Rule.Origin (rule : Rule) (es : List Element) : Element → Prop
  | kept {e : Element} (mem : e ∈ es) (intact : e.deleted = false) :
      Origin rule es e.sortWithin.compact.sortWithin
  | built {c : Cluster} {members : List Element} (dim : c.dim.isSome = true)
      (firsts : ∀ m ∈ members, ∃ f r, m = .register r ∧ .register f ∈ es ∧ f.SameContent r) :
      Origin rule es (.cluster c members)

/-! ## One rule -/

section Apply

variable (rule : Rule) (p : Peripheral)

/-- What the rule leaves, before it is put in order. -/
theorem Rule.mem_apply_iff {e : Element} : e ∈ (rule.apply p).state.registers ↔
    ∃ f, f.sortWithin = e ∧
      (f ∈ compactAll (rule.group p.name none (sortAll p.registers)).elements ∨
        ∃ c members, (rule.group p.name none (sortAll p.registers)).found = some (c, members) ∧
          f = assemble c members) := by
  have hregisters : (rule.apply p).state.registers =
      sortAll (compactAll (rule.group p.name none (sortAll p.registers)).elements ++
        ((rule.group p.name none (sortAll p.registers)).found.map fun cm =>
          assemble cm.1 cm.2).toList) := rfl
  rw [hregisters, mem_sortAll_iff]
  simp only [List.mem_append, Option.mem_toList, Option.map_eq_some_iff, Prod.exists]
  constructor
  · rintro ⟨f, hf | ⟨c, members, hfound, hf⟩, he⟩
    · exact ⟨f, he, .inl hf⟩
    · exact ⟨f, he, .inr ⟨c, members, hfound, hf.symm⟩⟩
  · rintro ⟨f, he, hf | ⟨c, members, hfound, hf⟩⟩
    · exact ⟨f, .inl hf, he⟩
    · exact ⟨f, .inr ⟨c, members, hfound, hf.symm⟩, he⟩

theorem Rule.group_sortAll_spec :
    rule.IsSound (sortAll p.registers) (rule.group p.name none (sortAll p.registers)).found ∧
      List.Forall₂ (rule.Outcome (sortAll p.registers)
        (rule.group p.name none (sortAll p.registers)).found) (sortAll p.registers)
        (rule.group p.name none (sortAll p.registers)).elements := by
  have hnone : rule.IsSound (sortAll p.registers) none := by
    intro _ _ h
    cases h
  obtain ⟨hsound, -, hout⟩ := rule.group_spec p.name (fun f _ hf => hf)
    (pairwise_offset_sortLevel _) hnone
  exact ⟨hsound, hout⟩

theorem sortWithin_assemble (c : Cluster) (members : List Element) :
    (assemble c members).sortWithin = assemble c members := by
  show Element.cluster c (sortAll (sortAll _)) = _
  rw [sortAll_sortAll]
  rfl

/-- A register stays, or a member of the cluster that is made stands for it. -/
theorem Rule.apply_register {s : Register} (hs : .register s ∈ p.registers)
    (hintact : s.deleted = false) : .register s ∈ (rule.apply p).state.registers ∨
      ∃ c m f, rule.Folded p.registers (rule.apply p).state.registers c m f s := by
  obtain ⟨hsound, hout⟩ := rule.group_sortAll_spec p
  obtain ⟨e, he, hse⟩ := exists_mem_of_forall₂ hout.flip (register_mem_sortAll_iff.2 hs)
  cases hse with
  | kept =>
    left
    exact (rule.mem_apply_iff p).2
      ⟨.register s, rfl, .inl (register_mem_compactAll_iff.2 ⟨he, hintact⟩)⟩
  | taken _ hcovers =>
    obtain ⟨c, members, d, f, member, hfound, hd, hf, hfintact, hrepeats, hmember⟩ := hcovers
    obtain ⟨-, hcintact, hmembers⟩ := hsound c members hfound
    have hoffset : c.offset ≤ f.offset := by
      obtain ⟨f', part, hsame, -, -, -, hle⟩ := hmembers _ hmember
      simp only [memberOf, Element.register.injEq, Register.mk.injEq] at hsame
      rw [hsame.2.2.1]
      exact hle
    have hsame := hrepeats.sameMember
    obtain ⟨a, b, k, -, hb, -, -, hbmember, hplace, hindex⟩ := hrepeats
    refine .inr ⟨c, { f with name := member, offset := f.offset - c.offset, deleted := false }, f,
      ?_, hcintact, register_mem_sortAll_iff.1 hf, hfintact, rfl, hsame,
      d, k, b, hd, hb, hbmember, hindex, ?_⟩
    · refine ⟨_, (rule.mem_apply_iff p).2 ⟨assemble c members, sortWithin_assemble c members,
        .inr ⟨c, members, hfound, rfl⟩⟩, register_mem_sortAll_iff.2 ?_⟩
      exact List.mem_map.2 ⟨_, hmember, rfl⟩
    · show s.offset = c.offset + (f.offset - c.offset) + k * d.stride
      omega

/-- A cluster stays, with what is in it. -/
theorem Rule.apply_cluster {c : Cluster} {es : List Element} (hc : .cluster c es ∈ p.registers)
    (hintact : c.deleted = false) {m : Register} (hm : .register m ∈ es)
    (hmintact : m.deleted = false) :
    ∃ members, .cluster c members ∈ (rule.apply p).state.registers ∧ .register m ∈ members := by
  obtain ⟨-, hout⟩ := rule.group_sortAll_spec p
  obtain ⟨e, he, hce⟩ := exists_mem_of_forall₂ hout.flip (mem_sortAll_iff.2 ⟨_, hc, rfl⟩)
  rw [sortWithin] at hce
  generalize hsorted : sortLevel (sortEach es) = fs at hce
  cases hce with
  | kept =>
    have hm : .register m ∈ fs := hsorted ▸ register_mem_sortAll_iff.2 hm
    exact ⟨sortAll (compactAll fs), (rule.mem_apply_iff p).2 ⟨.cluster c (compactAll fs), rfl,
      .inl (mem_compactAll_iff.2 ⟨_, he, hintact, rfl⟩)⟩,
      register_mem_sortAll_iff.2 (register_mem_compactAll_iff.2 ⟨hm, hmintact⟩)⟩

/-- What the rule leaves was there, or is the array of clusters that it makes. -/
theorem Rule.origin_of_mem_apply {e : Element} (he : e ∈ (rule.apply p).state.registers) :
    rule.Origin p.registers e := by
  obtain ⟨hsound, hout⟩ := rule.group_sortAll_spec p
  obtain ⟨f, rfl, hf | ⟨c, members, hfound, rfl⟩⟩ := (rule.mem_apply_iff p).1 he
  · obtain ⟨g, hg, hintact, rfl⟩ := mem_compactAll_iff.1 hf
    obtain ⟨x, hx, hxg⟩ := exists_mem_of_forall₂ hout hg
    cases hxg with
    | kept =>
      obtain ⟨y, hy, rfl⟩ := mem_sortAll_iff.1 hx
      refine .kept hy ?_
      rw [← hintact]
      cases y <;> rfl
    | taken => cases hintact
  · rw [sortWithin_assemble]
    obtain ⟨hdim, -, hmembers⟩ := hsound c members hfound
    refine .built hdim fun m hm => ?_
    obtain ⟨m', hm', rfl⟩ := mem_sortAll_iff.1 hm
    obtain ⟨m'', hm'', rfl⟩ := List.mem_map.1 hm'
    obtain ⟨f, part, rfl, hf, -⟩ := hmembers m'' hm''
    exact ⟨f, _, rfl, register_mem_sortAll_iff.1 hf, ⟨rfl, rfl, rfl, rfl, rfl, rfl⟩⟩

end Apply

/-! ## One rule after the other -/

/-- What is true of the elements `fs` that a run of rules has made of `es`. -/
structure Reached (rules : List Rule) (es fs : List Element) : Prop where
  /-- A register stays or was folded. -/
  unfolded : ∀ s, .register s ∈ es → s.deleted = false → .register s ∈ fs ∨
    ∃ rule ∈ rules, ∃ c m f, rule.Folded es fs c m f s
  /-- A register in no cluster was in none. -/
  registers : ∀ r, .register r ∈ fs → .register r ∈ es
  /-- An element can be declared if one that was there can, or is an array of clusters. -/
  declarable : ∀ e ∈ fs, (∃ x ∈ es, x.flags = e.flags ∧ (x.IsDeclarable → e.IsDeclarable)) ∨
    ∃ c members, e = .cluster c members ∧ c.dim.isSome = true
  descends : Descends es fs

theorem Reached.refl (rules : List Rule) (es : List Element) : Reached rules es es where
  unfolded _ hs _ := .inl hs
  registers _ hr := hr
  declarable e he := .inl ⟨e, he, rfl, id⟩
  descends := .refl es

variable {rules : List Rule} {es fs gs : List Element}

/-- What was folded stays so when the clusters stay and hold what they did. -/
theorem Rule.Folded.mono {rule : Rule} {c : Cluster} {m f s : Register}
    (h : rule.Folded es fs c m f s)
    (hkept : ∀ c members, .cluster c members ∈ fs → c.deleted = false → ∀ m, .register m ∈ members →
      m.deleted = false → ∃ members', .cluster c members' ∈ gs ∧ .register m ∈ members') :
    rule.Folded es gs c m f s := by
  obtain ⟨members, hc, hm⟩ := h.cluster_mem
  have hmintact : m.deleted = false := by rw [h.member_eq]
  exact { h with cluster_mem := hkept c members hc h.cluster_intact m hm hmintact }

/-- One more rule of the run. -/
theorem Reached.apply {p : Peripheral} (h : Reached rules es p.registers) {rule : Rule}
    (hrule : rule ∈ rules) : Reached rules es (rule.apply p).state.registers where
  unfolded s hs hintact := by
    rcases h.unfolded s hs hintact with hkept | ⟨rule', hrule', c, m, f, hfolded⟩
    · rcases rule.apply_register p hkept hintact with hkept | ⟨c, m, f, hfolded⟩
      · exact .inl hkept
      · exact .inr ⟨rule, hrule, c, m, f,
          { hfolded with first_mem := h.registers f hfolded.first_mem }⟩
    · refine .inr ⟨rule', hrule', c, m, f,
        hfolded.mono fun c members hc hcintact m hm hmintact => ?_⟩
      exact rule.apply_cluster p hc hcintact hm hmintact
  registers r hr := by
    have horigin := rule.origin_of_mem_apply p hr
    generalize he : Element.register r = e at horigin
    cases horigin with
    | @kept x hx hintact =>
      cases x with
      | register s =>
        cases he
        exact h.registers r hx
      | cluster c members => cases he
    | built => cases he
  declarable e he := by
    cases rule.origin_of_mem_apply p he with
    | @kept x hx hintact =>
      have hflags : x.sortWithin.compact.sortWithin.flags = x.flags := by
        rw [flags_sortWithin, flags_compact, flags_sortWithin]
      rcases h.declarable x hx with ⟨y, hy, hyflags, hdeclarable⟩ | ⟨c, members, rfl, hdim⟩
      · exact .inl ⟨y, hy, hyflags.trans hflags.symm,
          fun hy => (hdeclarable hy).sortWithin.compact.sortWithin⟩
      · exact .inr ⟨c, _, rfl, hdim⟩
    | built hdim => exact .inr ⟨_, _, rfl, hdim⟩
  descends := by
    refine h.descends.trans (descends_iff.2 fun e he => ?_)
    cases rule.origin_of_mem_apply p he with
    | @kept x hx hintact =>
      exact (descends_of_mem hx).trans ((descends_sortWithin x).trans
        ((descends_compact _).trans (descends_sortWithin _)))
    | built _ hfirsts =>
      refine descends_cluster.2 (descends_iff.2 fun m hm => ?_)
      obtain ⟨f, r, rfl, hf, hsame⟩ := hfirsts m hm
      exact descends_register hf hsame

/-- Putting everything in order at the end. -/
theorem Reached.sortAll (h : Reached rules es fs) : Reached rules es (sortAll fs) where
  unfolded s hs hintact := by
    rcases h.unfolded s hs hintact with hkept | ⟨rule, hrule, c, m, f, hfolded⟩
    · exact .inl (register_mem_sortAll_iff.2 hkept)
    · refine .inr ⟨rule, hrule, c, m, f, hfolded.mono fun c members hc _ m hm _ => ?_⟩
      exact ⟨_, mem_sortAll_iff.2 ⟨_, hc, rfl⟩, register_mem_sortAll_iff.2 hm⟩
  registers r hr := h.registers r (register_mem_sortAll_iff.1 hr)
  declarable e he := by
    obtain ⟨x, hx, rfl⟩ := mem_sortAll_iff.1 he
    rcases h.declarable x hx with ⟨y, hy, hyflags, hdeclarable⟩ | ⟨c, members, rfl, hdim⟩
    · exact .inl ⟨y, hy, hyflags.trans (flags_sortWithin x).symm,
        fun hy => (hdeclarable hy).sortWithin⟩
    · exact .inr ⟨c, _, rfl, hdim⟩
  descends := h.descends.trans (descends_sortAll fs)

/-- A run of rules never stops halfway. -/
theorem reached_foldl (rules : List Rule) {o : Outcome Peripheral} (hnone : o.failure = none)
    {all : List Rule} (hall : rules ⊆ all) {es : List Element}
    (h : Reached all es o.state.registers) :
    (rules.foldl (fun o rule => o.andThen rule.apply) o).failure = none ∧
      Reached all es (rules.foldl (fun o rule => o.andThen rule.apply) o).state.registers := by
  induction rules generalizing o with
  | nil => exact ⟨hnone, h⟩
  | cons rule rules ih =>
    obtain ⟨hrule, hrules⟩ := List.cons_subset.1 hall
    have hstep : o.andThen rule.apply = { rule.apply o.state with
        warnings := o.warnings ++ (rule.apply o.state).warnings } := by
      rw [Outcome.andThen, hnone]
    rw [List.foldl_cons, hstep]
    exact ih rfl hrules (h.apply hrule)

/-- A run of rules changes the registers only. -/
theorem state_foldl (rules : List Rule) (o : Outcome Peripheral) : ∃ rs,
    (rules.foldl (fun o rule => o.andThen rule.apply) o).state =
      { o.state with registers := rs } := by
  induction rules generalizing o with
  | nil => exact ⟨o.state.registers, rfl⟩
  | cons rule rules ih =>
    obtain ⟨rs, hrs⟩ := ih (o.andThen rule.apply)
    have hstep : ∃ rs', (o.andThen rule.apply).state = { o.state with registers := rs' } := by
      unfold Outcome.andThen
      split
      · exact ⟨_, rfl⟩
      · exact ⟨_, rfl⟩
    obtain ⟨rs', hrs'⟩ := hstep
    exact ⟨rs, by rw [List.foldl_cons, hrs, hrs']⟩

end RegisterMap.Clusters

/-- Grouping changes the registers only. -/
theorem RegisterMap.Peripheral.groupClusters_state (p : Peripheral) :
    p.groupClusters.state = { p with registers := p.groupClusters.state.registers } := by
  unfold groupClusters
  split
  · rfl
  · obtain ⟨rs, hrs⟩ := Clusters.state_foldl (Clusters.rulesOf p.name) (Outcome.pure p)
    unfold Outcome.map sort
    rw [hrs]
    rfl

/-- What the grouping of a peripheral has made of its registers. -/
theorem RegisterMap.Peripheral.reached_groupClusters (p : Peripheral) :
    p.groupClusters.failure = none ∧ Clusters.Reached (Clusters.rulesOf p.name) p.registers
      p.groupClusters.state.registers := by
  unfold groupClusters
  split
  · exact ⟨rfl, .refl _ _⟩
  · obtain ⟨hnone, hreached⟩ := Clusters.reached_foldl (Clusters.rulesOf p.name)
      (o := Outcome.pure p) rfl (List.Subset.refl _) (.refl _ _)
    exact ⟨hnone, hreached.sortAll⟩
