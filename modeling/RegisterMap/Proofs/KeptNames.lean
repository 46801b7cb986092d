import RegisterMap.Proofs.Arrays.Steps
import RegisterMap.Proofs.Clusters.Starts
import RegisterMap.Proofs.Prefix

/-!
# Names that stay

Folding arrays, grouping clusters and taking common name parts give some registers other names. A
name stays with its registers (`Peripheral.KeepsName.named`) if it has no index to fold and no part
in a cluster, and if no register that has gets it. The common part is taken from the names of a
peripheral's own elements; those inside of clusters stay.
-/

namespace RegisterMap

namespace Element

/-- The registers of a tree that have the name. -/
def named (n : String) (es : List Element) : List Register := (registersAll es).filter (·.name = n)

variable {n : String} {es fs : List Element}

theorem mem_named {r : Register} : r ∈ named n es ↔ r ∈ registersAll es ∧ r.name = n := by
  rw [named, List.mem_filter, decide_eq_true_iff]

theorem named_append (n : String) (es fs : List Element) :
    named n (es ++ fs) = named n es ++ named n fs := by
  simp only [named, registersAll_eq_flatMap, List.flatMap_append, List.filter_append]

theorem named_cons (n : String) (e : Element) (es : List Element) :
    named n (e :: es) = named n [e] ++ named n es := named_append n [e] es

theorem named_cluster (c : Cluster) : named n [.cluster c es] = named n es := by
  simp only [named, registersAll, registers, List.append_nil]

theorem named_perm (h : es.Perm fs) : (named n es).Perm (named n fs) := by
  simp only [named, registersAll_eq_flatMap]
  exact (h.flatMap_right registers).filter _

theorem named_sortAll (n : String) (es : List Element) :
    (named n (sortAll es)).Perm (named n es) := (registersAll_sortAll es).filter _

theorem named_eq_nil (h : ∀ r ∈ registersAll es, r.name ≠ n) : named n es = [] :=
  List.filter_eq_nil_iff.2 fun r hr => by simpa using h r hr

end Element

open Element

variable {n : String} {es fs : List Element}

/-! ## Folding -/

namespace Arrays

/-- No register of the name is folded, and no array gets it. -/
structure Site.Spares (site : Site) (n : String) (es : List Element) : Prop where
  /-- There is no index in the name. -/
  split_eq : (ruleOf site.peripheral).split? n = none
  /-- The array of a register that has an index is named otherwise. -/
  array_ne : ∀ r ∈ registersAll es, ∀ a ∈ (ruleOf site.peripheral).split? r.name, a.1 ≠ n

variable {site : Site}

theorem Site.Spares.of_subset (h : site.Spares n es) (hsub : registersAll fs ⊆ registersAll es) :
    site.Spares n fs :=
  ⟨h.split_eq, fun r hr => h.array_ne r (hsub hr)⟩

/-- A register with an index is not one of the name. -/
theorem Site.Spares.name_ne (h : site.Spares n es) {r : Register} {a : String × String}
    (hsplit : (ruleOf site.peripheral).split? r.name = some a) : r.name ≠ n := by
  rintro rfl
  rw [h.split_eq] at hsplit
  cases hsplit

theorem Site.Folds.named (h : site.Folds es fs) (hn : site.Spares n es) :
    (named n fs).Perm (named n es) := by
  induction h with
  | nil => exact .refl _
  | @kept r es fs tail ih =>
    rw [named_cons n (.register r) fs, named_cons n (.register r) es]
    exact (ih (hn.of_subset (List.subset_append_right _ _))).append_left _
  | @inside c es es' fs fs' children tail ihInside ih =>
    rw [named_cons n (.cluster c fs) fs', named_cons n (.cluster c es) es', named_cluster,
      named_cluster]
    exact (ihInside (hn.of_subset (List.subset_append_left _ _))).append
      (ih (hn.of_subset (List.subset_append_right _ _)))
  | @array r s vs is es fs hseed hmarked hseries hne tail ih =>
    obtain ⟨-, -, -, hrule, hsplit⟩ := Site.seed?_eq_some hseed
    rw [hrule] at hsplit
    -- neither the registers of the array nor the array itself have the name
    have htaken : ∀ v ∈ vs, v.name ≠ n := hseries.forall_mem fun k v i htakes => by
      obtain ⟨v', hv, -, hsplit', -⟩ := Seed.takes?_eq_some htakes
      cases hv
      rw [hrule] at hsplit'
      exact hn.name_ne hsplit'
    have hbefore : Element.named n (.register r :: vs.map .register) = [] := by
      refine named_eq_nil fun v hv => ?_
      rcases List.mem_cons.1 hv with rfl | hv
      · exact hn.name_ne hsplit
      · rw [registersAll_eq_flatMap, List.flatMap_map] at hv
        obtain ⟨w, hw, hv⟩ := List.mem_flatMap.1 hv
        rw [List.mem_singleton.1 hv]
        exact htaken w hw
    have hafter : Element.named n [.register (s.toArray (s.index :: is))] = [] := by
      refine named_eq_nil fun v hv => ?_
      rw [List.mem_singleton.1 hv]
      exact hn.array_ne r List.mem_cons_self _ hsplit
    rw [← List.cons_append, named_append, hbefore, named_cons, hafter]
    refine ih (hn.of_subset ?_)
    rw [← List.cons_append, registersAll_eq_flatMap, registersAll_eq_flatMap, List.flatMap_append]
    exact List.subset_append_right _ _
  | perm hes hfs folds ih =>
    have hsub := (hes.flatMap_right registers).subset
    rw [← registersAll_eq_flatMap, ← registersAll_eq_flatMap] at hsub
    exact (named_perm hfs).symm.trans ((ih (hn.of_subset hsub)).trans (named_perm hes))

end Arrays

/-! ## Grouping -/

namespace Clusters

/-- No register of the name is grouped, and no member gets it. -/
structure Rule.Spares (rule : Rule) (n : String) (es : List Element) : Prop where
  /-- The name is that of no part. -/
  part_eq : rule.part? n = none
  /-- The member for a register that is part of a group is named otherwise. -/
  member_ne : ∀ r, .register r ∈ es → ∀ part ∈ rule.part? r.name, part.member ≠ n

variable {rule : Rule}

theorem Rule.Spares.of_subset (h : rule.Spares n es)
    (hsub : ∀ r, .register r ∈ fs → .register r ∈ es) : rule.Spares n fs :=
  ⟨h.part_eq, fun r hr => h.member_ne r (hsub r hr)⟩

/-- The registers that are taken out are not those of the name. -/
theorem Rule.named_compactAll {level : List Element} {found : Found} (hpart : rule.part? n = none)
    (h : List.Forall₂ (rule.Outcome level found) es fs) (hintact : isIntactAll es = true) :
    named n (compactAll fs) = named n es := by
  induction h with
  | nil => rfl
  | @cons e f es fs he hes ih =>
    rw [isIntactAll, Bool.and_eq_true] at hintact
    have ih := ih hintact.2
    cases he with
    | kept =>
      rw [compactAll, deleted_of_isIntact hintact.1, if_neg Bool.false_ne_true,
        compact_of_isIntact _ hintact.1, named_cons, ih, ← named_cons]
    | @taken r hr hcovers =>
      obtain ⟨-, -, -, -, member, -, -, -, -, ⟨-, b, -, -, hb, -⟩, -⟩ := hcovers
      have hne : r.name ≠ n := by
        rintro rfl
        rw [hpart] at hb
        cases hb
      have hnone : named n [.register r] = [] :=
        named_eq_nil fun v hv => by rwa [List.mem_singleton.1 hv]
      rw [compactAll, deleted_delete, if_pos rfl, ih, named_cons n (.register r), hnone,
        List.nil_append]

/-- The members of the cluster that is found are named as members. -/
theorem Rule.named_found {level : List Element} {found : Found} (hsound : rule.IsSound level found)
    (hn : rule.Spares n level) :
    named n (found.map fun cm => assemble cm.1 cm.2).toList = [] := by
  cases found with
  | none => rfl
  | some cm =>
    obtain ⟨c, members⟩ := cm
    obtain ⟨-, -, hmembers⟩ := hsound c members rfl
    refine named_eq_nil fun r hr => ?_
    have hr : r ∈ registersAll
        (sortAll (members.map fun e => e.withOffset (e.offset - c.offset))) := by
      simpa [assemble, registersAll, registers] using hr
    rw [(registersAll_sortAll _).mem_iff, registersAll_eq_flatMap, List.flatMap_map] at hr
    obtain ⟨m, hm, hr⟩ := List.mem_flatMap.1 hr
    obtain ⟨f, part, rfl, hf, -, hpart, -⟩ := hmembers m hm
    rw [List.mem_singleton.1 hr]
    exact hn.member_ne f hf part hpart

theorem Rule.named_apply {p : Peripheral} (hintact : isIntactAll p.registers = true)
    (hn : rule.Spares n p.registers) :
    (named n (rule.apply p).state.registers).Perm (named n p.registers) := by
  obtain ⟨hsound, hout⟩ := rule.group_sortAll_spec p
  have hlevel : rule.Spares n (sortAll p.registers) :=
    hn.of_subset fun r => register_mem_sortAll_iff.1
  have hrest := rule.named_compactAll (n := n) hn.part_eq hout
    ((isIntactAll_sortAll _).trans hintact)
  refine (named_sortAll n _).trans ?_
  show (Element.named n (compactAll (rule.group p.name none (sortAll p.registers)).elements ++
    ((rule.group p.name none (sortAll p.registers)).found.map fun cm =>
      assemble cm.1 cm.2).toList)).Perm _
  rw [named_append, hrest, Rule.named_found hsound hlevel, List.append_nil]
  exact named_sortAll n _

theorem named_foldl {rules : List Rule} {o : RegisterMap.Outcome Peripheral}
    (hdone : o.failure = none) (hintact : isIntactAll o.state.registers = true)
    (hn : ∀ rule ∈ rules, rule.Spares n o.state.registers) :
    (named n (rules.foldl (fun o rule => o.andThen rule.apply) o).state.registers).Perm
      (named n o.state.registers) := by
  induction rules generalizing o with
  | nil => exact .refl _
  | cons rule rules ih =>
    obtain ⟨hrule, hrules⟩ := List.forall_mem_cons.1 hn
    have hstep : o.andThen rule.apply = { rule.apply o.state with
        warnings := o.warnings ++ (rule.apply o.state).warnings } := by
      rw [RegisterMap.Outcome.andThen, hdone]
    -- a rule makes no registers that later ones could take
    have hkept :=
      ((Reached.refl [rule] o.state.registers).apply (List.mem_singleton_self rule)).registers
    have hrest := ih (o := { rule.apply o.state with
      warnings := o.warnings ++ (rule.apply o.state).warnings }) rfl
      (rule.isIntactAll_apply o.state) fun rule' hrule' => (hrules rule' hrule').of_subset hkept
    rw [List.foldl_cons, hstep]
    exact hrest.trans (Rule.named_apply hintact hrule)

end Clusters

namespace Peripheral

/-- The name stays with its registers in a reduction that renames some, as can be told of the
peripheral before. -/
inductive KeepsName (p : Peripheral) : Peripheral → String → Prop
  | arrays (cmp : Comparison) {n : String} (intact : isIntactAll p.registers = true)
      (done : (p.foldArrays cmp).failure = none)
      (spared : Arrays.Site.Spares ⟨p.name, cmp⟩ n p.registers) :
      KeepsName p (p.foldArrays cmp).state n
  | clusters {n : String} (intact : isIntactAll p.registers = true)
      (spared : ∀ rule ∈ Clusters.rulesOf p.name, rule.Spares n p.registers) :
      KeepsName p p.groupClusters.state n
  | commonPrefix (conflicts : List String) {n : String}
      (spared : p.HasNoPrefix ∨ ∀ r, .register r ∈ p.registers → r.name ≠ n ∧
        .ofList (r.name.toList.drop (CommonPrefix.ofNames p.elementNames).length) ≠ n) :
      KeepsName p (Workpiece.extractPrefix ⟨p, conflicts⟩).state.peripheral n

theorem named_takePrefix {common : List Char}
    (h : ∀ r, .register r ∈ es → r.name ≠ n ∧ .ofList (r.name.toList.drop common.length) ≠ n) :
    named n (es.map fun e => e.withName (.ofList (e.name.toList.drop common.length))) =
      named n es := by
  induction es with
  | nil => rfl
  | cons e es ih =>
    have ih := ih fun r hr => h r (List.mem_cons_of_mem _ hr)
    rw [List.map_cons, named_cons, ih, named_cons n e]
    congr 1
    cases e with
    | cluster c fs => exact (named_cluster _).trans (named_cluster _).symm
    | register r =>
      obtain ⟨hbefore, hafter⟩ := h r List.mem_cons_self
      rw [named_eq_nil fun v hv => by rwa [List.mem_singleton.1 hv],
        named_eq_nil fun v hv => by rwa [List.mem_singleton.1 hv]]

/-- **Names that stay.** The registers of such a name are the same behind the reduction. -/
theorem KeepsName.named {p q : Peripheral} (h : p.KeepsName q n) :
    (named n q.registers).Perm (named n p.registers) := by
  cases h with
  | arrays cmp hintact hdone hspared =>
    cases hown : p.derivedFrom with
    | none => exact (folds_foldArrays hown hintact hdone).named hspared
    | some source =>
      have hderived : p.isDerived = true := by rw [isDerived, hown, Option.isSome_some]
      unfold foldArrays
      rw [if_pos hderived]
      exact .refl _
  | clusters hintact hspared =>
    unfold groupClusters
    split
    · exact .refl _
    · exact (named_sortAll n _).trans (Clusters.named_foldl rfl hintact hspared)
  | commonPrefix conflicts hspared =>
    by_cases hnone : p.HasNoPrefix
    · rw [extractPrefix_of_hasNoPrefix hnone conflicts]
      exact .refl _
    · obtain ⟨-, description, hstate⟩ :=
        extractPrefix_of_not_hasNoPrefix (w := ⟨p, conflicts⟩) hnone
      rw [hstate]
      exact .of_eq (named_takePrefix (hspared.resolve_left hnone))

end Peripheral

end RegisterMap
