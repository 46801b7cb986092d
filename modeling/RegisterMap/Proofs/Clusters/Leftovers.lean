import RegisterMap.Proofs.Clusters.Starts

/-!
# What grouping leaves over

A rule that finds no two instances of one member in a level (`Rule.Spent`) leaves it as it is
(`Rule.apply_of_spent`). Any other makes a cluster of it, and fewer registers are left than there
were (`Rule.countAll_apply`). So a peripheral is grouped as long as there are instances to find,
whether an earlier run left them over or not.
-/

namespace RegisterMap

namespace Clusters

open Element

/-- No two registers of the level are instances of one member in different places. -/
def Rule.Spent (rule : Rule) (es : List Element) : Prop :=
  ∀ r s, .register r ∈ es → .register s ∈ es → r.deleted = false → s.deleted = false →
    rule.SameMember r s → r.offset = s.offset

variable {rule : Rule} {peripheral : String} {found : Found} {es : List Element}

theorem Rule.Spent.of_subset {fs : List Element} (h : rule.Spent es) (hsub : fs ⊆ es) :
    rule.Spent fs :=
  fun r s hr hs => h r s (hsub hr) (hsub hs)

theorem Rule.spent_sortAll : rule.Spent (sortAll es) ↔ rule.Spent es := by
  simp only [Spent, register_mem_sortAll_iff]

/-! ## Nothing to group -/

theorem Seed.gather_of_instance? {s : Seed} {i : Instances}
    (h : ∀ e ∈ es, s.instance? e = none) : s.gather i es = (i, es) := by
  induction es with
  | nil => rfl
  | cons e es ih =>
    obtain ⟨he, hes⟩ := List.forall_mem_cons.1 h
    rw [gather, he, ih hes]

/-- Nothing behind a register of a spent level is another instance of its member. -/
theorem Rule.Spent.instance? {r : Register} {part : Part} (h : rule.Spent (.register r :: es))
    (hr : r.deleted = false) (hpart : rule.part? r.name = some part) :
    ∀ e ∈ es, Seed.instance? ⟨rule, peripheral, r, part⟩ e = none := by
  intro e he
  cases hinstance : Seed.instance? ⟨rule, peripheral, r, part⟩ e with
  | none => rfl
  | some found =>
    obtain ⟨s, distance, index⟩ := found
    obtain ⟨part', rfl, hs, hpart', harray, hmember, -, hdistance, hne⟩ :=
      Seed.instance?_eq_some hinstance
    have hsame := h r s List.mem_cons_self (List.mem_cons_of_mem _ he) hr hs
      ⟨part, part', hpart, hpart', harray.symm, hmember.symm⟩
    rw [hdistance, ← hsame] at hne
    exact absurd (Nat.sub_self _) hne

theorem Rule.group_of_spent (h : rule.Spent es) :
    rule.group peripheral none es = { elements := es } := by
  induction es with
  | nil => rw [group]
  | cons e es ih =>
    have ih := ih (h.of_subset (List.subset_cons_self e es))
    rw [group]
    cases hregister : rule.register? e with
    | none => simp only [ih]
    | some found =>
      obtain ⟨r, part⟩ := found
      obtain ⟨rfl, hr, hpart⟩ := register?_eq_some.1 hregister
      simp only [Seed.gather_of_instance? (h.instance? hr hpart), List.length_singleton, if_true,
        ih, List.append_nil]

/-- A rule that is spent leaves a level in order as it is. -/
theorem Rule.apply_of_spent {p : Peripheral} (hsorted : sortAll p.registers = p.registers)
    (hintact : isIntactAll p.registers = true) (h : rule.Spent p.registers) :
    rule.apply p = .pure p := by
  have hgroup : rule.group p.name none p.sort.registers = { elements := p.registers } := by
    rw [← group_of_spent h, Peripheral.sort, hsorted]
  rw [apply, hgroup]
  simp only [Option.map_none, Option.toList_none, List.append_nil,
    compactAll_of_isIntactAll _ hintact, hsorted]
  rfl

/-! ## Fewer registers -/

/-- The number of members of the cluster that was found. -/
def membersOf : Found → Nat
  | none => 0
  | some (_, members) => members.length

/-- Every register that is taken as an instance is one less. -/
theorem Seed.countAll_gather (s : Seed) (i : Instances) (es : List Element) :
    countAll (s.gather i es).2 + (s.gather i es).1.indexes.length =
      countAll es + i.indexes.length := by
  induction es generalizing i with
  | nil => rfl
  | cons e es ih =>
    rw [gather]
    cases hinstance : s.instance? e with
    | none =>
      have ih := ih i
      simp only [countAll]
      omega
    | some found =>
      obtain ⟨r, distance, index⟩ := found
      by_cases hexpected : i.expects distance = true
      · obtain ⟨-, rfl, hr, -⟩ := instance?_eq_some hinstance
        have ih := ih (i.push distance index)
        have hlength : (i.push distance index).indexes.length = i.indexes.length + 1 :=
          List.length_append
        simp only [if_pos hexpected, countAll_cons_of_deleted (deleted_delete _)]
        rw [countAll, count_register hr]
        omega
      · have ih := ih (i.warn s r distance)
        have hlength : (i.warn s r distance).indexes.length = i.indexes.length := rfl
        simp only [if_neg hexpected, countAll]
        omega

theorem Rule.membersOf_getD {offset : Nat} {dim : Dim} {c : Cluster} {members : List Element}
    (h : found.getD (rule.begin offset dim, []) = (c, members)) :
    membersOf found = members.length := by
  cases found with
  | none =>
    cases h
    rfl
  | some cm =>
    cases h
    rfl

/-- Each member of the cluster that is found stands for two registers at least. -/
theorem Rule.countAll_group (rule : Rule) (peripheral : String) (found : Found)
    (es : List Element) :
    countAll (rule.group peripheral found es).elements +
        2 * membersOf (rule.group peripheral found es).found ≤
      countAll es + 2 * membersOf found := by
  fun_induction Rule.group rule peripheral found es with
  | case1 found => exact Nat.le_refl _
  | case2 found e es hnone g ih =>
    have ih : countAll g.elements + 2 * membersOf g.found ≤ _ := ih
    simp only [countAll]
    omega
  | case3 found e es r part hr seed gathered instances hlone g ih =>
    have ih : countAll g.elements + 2 * membersOf g.found ≤ _ := ih
    simp only [countAll]
    omega
  | case4 found e es r part hr seed gathered instances hmany dim c members hc hdim g ih =>
    obtain ⟨rfl, hintact, -⟩ := register?_eq_some.1 hr
    have hgather : countAll gathered.2 + instances.indexes.length = countAll es + 1 :=
      seed.countAll_gather { indexes := [part.index] } es
    obtain ⟨hextends, -⟩ := seed.gather_spec (i := { indexes := [part.index] }) (fun _ => rfl) es
    have hlength : 1 ≤ instances.indexes.length := List.IsPrefix.length_le hextends.indexes_prefix
    have hmembers : membersOf (some (addMember c members r part.member)) = members.length + 1 :=
      List.length_append
    have ih : countAll g.elements + 2 * membersOf g.found ≤
      countAll gathered.2 + 2 * membersOf (some (addMember c members r part.member)) := ih
    rw [membersOf_getD hc, countAll_cons_of_deleted (deleted_delete _), countAll,
      count_register hintact]
    show countAll g.elements + 2 * membersOf g.found ≤ _
    omega
  | case5 found e es r part hr seed gathered instances hmany dim c members hc hdim g ih =>
    have ih : countAll g.elements + 2 * membersOf g.found ≤
      countAll es + 2 * members.length := ih
    rw [membersOf_getD hc, countAll, countAll]
    show e.count + countAll g.elements + 2 * membersOf g.found ≤ _
    omega

/-- A cluster that was found keeps its members. -/
theorem Rule.membersOf_le_group (rule : Rule) (peripheral : String) (found : Found)
    (es : List Element) :
    membersOf found ≤ membersOf (rule.group peripheral found es).found := by
  fun_induction Rule.group rule peripheral found es with
  | case1 found => exact Nat.le_refl _
  | case2 found e es hnone g ih => exact ih
  | case3 found e es r part hr seed gathered instances hlone g ih => exact ih
  | case4 found e es r part hr seed gathered instances hmany dim c members hc hdim g ih =>
    rw [membersOf_getD hc]
    refine Nat.le_trans ?_ ih
    show members.length ≤ (members ++ _).length
    rw [List.length_append]
    exact Nat.le_add_right _ _
  | case5 found e es r part hr seed gathered instances hmany dim c members hc hdim g ih =>
    rw [membersOf_getD hc]
    exact ih

/-- When a gathering ends with the instances that it began with, there were no others. -/
theorem Seed.instance?_of_gather {s : Seed} {i : Instances} (hi : i.stride = 0)
    (h : (s.gather i es).1.indexes.length = i.indexes.length) :
    ∀ e ∈ es, s.instance? e = none := by
  induction es with
  | nil => exact List.forall_mem_nil _
  | cons e es ih =>
    rw [gather] at h
    cases hinstance : s.instance? e with
    | none =>
      rw [hinstance] at h
      exact List.forall_mem_cons.2 ⟨hinstance, ih h⟩
    | some found =>
      obtain ⟨r, distance, index⟩ := found
      have hexpected : i.expects distance = true := by
        rw [Instances.expects, hi]
        rfl
      obtain ⟨-, -, -, -, -, -, -, -, hne⟩ := instance?_eq_some hinstance
      have hpushed : (i.push distance index).IsBegun := by
        intro hzero
        rw [Instances.push, if_pos hi] at hzero
        exact absurd hzero hne
      obtain ⟨hextends, -⟩ := s.gather_spec hpushed es
      have hlength := List.IsPrefix.length_le hextends.indexes_prefix
      simp only [hinstance, if_pos hexpected] at h
      rw [h, show (i.push distance index).indexes = i.indexes ++ [index] from rfl,
        List.length_append] at hlength
      exact absurd hlength (Nat.not_succ_le_self _)

theorem Seed.offset_le_of_instance? {s : Seed} {r : Register}
    (h : s.instance? (.register r) = none) (hr : r.deleted = false) {part : Part}
    (hpart : s.rule.part? r.name = some part) (harray : part.array = s.part.array)
    (hmember : part.member = s.part.member) : r.offset ≤ s.register.offset := by
  have hregister : s.rule.register? (.register r) = some (r, part) :=
    Rule.register?_eq_some.2 ⟨rfl, hr, hpart⟩
  by_contra hlt
  have hne : r.offset - s.register.offset ≠ 0 := by omega
  simp only [instance?, hregister, harray, hmember, beq_self_eq_true, Bool.true_and, bne_iff_ne,
    ne_eq, hne, not_false_eq_true, if_true] at h
  cases h

theorem Rule.Spent.cons {e : Element} (hes : rule.Spent es)
    (he : ∀ r s, e = .register r → .register s ∈ es → r.deleted = false → s.deleted = false →
      rule.SameMember r s → r.offset = s.offset) : rule.Spent (e :: es) := by
  intro r s hr hs hrdeleted hsdeleted hsame
  rcases List.mem_cons.1 hr with hr | hr
  · rcases List.mem_cons.1 hs with hs | hs
    · cases hr.trans hs.symm
      rfl
    · exact he r s hr.symm hs hrdeleted hsdeleted hsame
  · rcases List.mem_cons.1 hs with hs | hs
    · obtain ⟨a, b, ha, hb, harray, hmember⟩ := hsame
      exact (he s r hs.symm hr hsdeleted hrdeleted
        ⟨b, a, hb, ha, harray.symm, hmember.symm⟩).symm
    · exact hes r s hr hs hrdeleted hsdeleted hsame

/-- A level in order in which no cluster is found has no two instances of one member. -/
theorem Rule.spent_of_group (peripheral : String)
    (hes : es.Pairwise fun a b => a.offset ≤ b.offset)
    (h : membersOf (rule.group peripheral none es).found = 0) : rule.Spent es := by
  induction es with
  | nil => exact fun r s hr => absurd hr List.not_mem_nil
  | cons e es ih =>
    obtain ⟨he, htail⟩ := List.pairwise_cons.1 hes
    rw [group] at h
    cases hregister : rule.register? e with
    | none =>
      rw [hregister] at h
      refine (ih htail h).cons fun r s hr _ hrdeleted _ hsame => ?_
      obtain ⟨a, -, ha, -⟩ := hsame
      rw [register?_eq_some.2 ⟨hr, hrdeleted, ha⟩] at hregister
      cases hregister
    | some found =>
      obtain ⟨r, part⟩ := found
      obtain ⟨rfl, hr, hpart⟩ := register?_eq_some.1 hregister
      let seed : Seed := ⟨rule, peripheral, r, part⟩
      simp only [hregister] at h
      by_cases hlone : (seed.gather { indexes := [part.index] } es).1.indexes.length = 1
      · rw [if_pos hlone] at h
        refine (ih htail h).cons fun r' s hr' hs _ hsdeleted hsame => ?_
        cases hr'
        obtain ⟨a, b, ha, hb, harray, hmember⟩ := hsame
        cases hpart.symm.trans ha
        have hnone := Seed.instance?_of_gather rfl hlone _ hs
        exact Nat.le_antisymm (he _ hs)
          (Seed.offset_le_of_instance? hnone hsdeleted hb harray.symm hmember.symm)
      · -- the first cluster that is found has the dimensions that its first member asks for
        rw [if_neg hlone] at h
        simp only [Option.getD_none, Rule.begin, if_true] at h
        refine absurd h (Nat.ne_of_gt (Nat.lt_of_lt_of_le ?_ (rule.membersOf_le_group _ _ _)))
        simp [membersOf, addMember]

/-! ## Rules and peripherals -/

/-- The cluster that is found has as many registers as members. -/
theorem Rule.countAll_found {level : List Element} (h : rule.IsSound level found) :
    countAll (found.map fun cm => assemble cm.1 cm.2).toList = membersOf found := by
  cases found with
  | none => rfl
  | some cm =>
    obtain ⟨c, members⟩ := cm
    obtain ⟨-, hdeleted, hmembers⟩ := h c members rfl
    have hone : ∀ m ∈ members, (count ∘ fun e => e.withOffset (e.offset - c.offset)) m = 1 := by
      intro m hm
      obtain ⟨f, part, rfl, -⟩ := hmembers m hm
      rfl
    have hassembled : (assemble c members).count = members.length := by
      rw [assemble, count, if_neg (Bool.eq_false_iff.1 hdeleted), countAll_sortAll,
        countAll_eq_sum, List.map_map, List.map_congr_left hone, List.map_const',
        List.sum_replicate_nat, Nat.mul_one]
    show (assemble c members).count + 0 = members.length
    rw [hassembled, Nat.add_zero]

/-- Grouping leaves no more registers, and as many only where the rule finds nothing. -/
theorem Rule.countAll_apply (rule : Rule) (p : Peripheral) :
    countAll (rule.apply p).state.registers ≤ countAll p.registers ∧
      (countAll p.registers ≤ countAll (rule.apply p).state.registers →
        rule.Spent p.registers) := by
  have hgroup := rule.countAll_group p.name none (sortAll p.registers)
  have happly : countAll (rule.apply p).state.registers =
      countAll (rule.group p.name none (sortAll p.registers)).elements +
        membersOf (rule.group p.name none (sortAll p.registers)).found := by
    rw [← countAll_found (rule.group_sortAll_spec p).1,
      ← countAll_compactAll (rule.group p.name none _).elements, ← countAll_append]
    exact countAll_sortAll _
  rw [countAll_sortAll, show membersOf none = 0 from rfl] at hgroup
  refine ⟨by omega, fun h => rule.spent_sortAll.1 ?_⟩
  refine Rule.spent_of_group p.name (pairwise_offset_sortLevel _) ?_
  show membersOf (rule.group p.name none (sortAll p.registers)).found = 0
  omega

theorem countAll_foldl (rules : List Rule) (o : RegisterMap.Outcome Peripheral) :
    countAll (rules.foldl (fun o rule => o.andThen rule.apply) o).state.registers ≤
      countAll o.state.registers := by
  induction rules generalizing o with
  | nil => exact Nat.le_refl _
  | cons rule rules ih =>
    refine Nat.le_trans (ih _) ?_
    show countAll (o.andThen rule.apply).state.registers ≤ _
    unfold RegisterMap.Outcome.andThen
    split
    · exact Nat.le_refl _
    · exact (rule.countAll_apply o.state).1

/-- When a run of rules leaves as many registers as there were, none of them finds anything. -/
theorem spent_of_foldl {rules : List Rule} {p : Peripheral}
    (hsorted : sortAll p.registers = p.registers) (hintact : isIntactAll p.registers = true)
    (h : countAll p.registers ≤ countAll (rules.foldl (fun o rule => o.andThen rule.apply)
      (Outcome.pure p)).state.registers) : ∀ rule ∈ rules, rule.Spent p.registers := by
  induction rules with
  | nil => exact List.forall_mem_nil _
  | cons rule rules ih =>
    rw [List.foldl_cons, RegisterMap.Outcome.pure_andThen] at h
    have hrule := (rule.countAll_apply p).2 (Nat.le_trans h (countAll_foldl rules _))
    rw [Rule.apply_of_spent hsorted hintact hrule] at h
    exact List.forall_mem_cons.2 ⟨hrule, ih h⟩

theorem foldl_of_spent {rules : List Rule} {p : Peripheral}
    (hsorted : sortAll p.registers = p.registers) (hintact : isIntactAll p.registers = true)
    (h : ∀ rule ∈ rules, rule.Spent p.registers) :
    rules.foldl (fun o rule => o.andThen rule.apply) (Outcome.pure p) = .pure p := by
  induction rules with
  | nil => rfl
  | cons rule rules ih =>
    obtain ⟨hrule, hrules⟩ := List.forall_mem_cons.1 h
    rw [List.foldl_cons, RegisterMap.Outcome.pure_andThen,
      Rule.apply_of_spent hsorted hintact hrule, ih hrules]

/-- Every rule takes out what is deleted. -/
theorem isIntactAll_foldl {rules : List Rule} {o : RegisterMap.Outcome Peripheral}
    (hdone : o.failure = none) (h : isIntactAll o.state.registers = true ∨ rules ≠ []) :
    isIntactAll
      (rules.foldl (fun o rule => o.andThen rule.apply) o).state.registers = true := by
  induction rules generalizing o with
  | nil => exact h.resolve_right fun hne => hne rfl
  | cons rule rules ih =>
    have hstep : o.andThen rule.apply = { rule.apply o.state with
        warnings := o.warnings ++ (rule.apply o.state).warnings } := by
      rw [RegisterMap.Outcome.andThen, hdone]
    rw [List.foldl_cons, hstep]
    exact ih rfl (.inl (rule.isIntactAll_apply o.state))

end Clusters

namespace Peripheral

open Element Clusters

/-- No rule for clusters of the peripheral finds anything to group. -/
def IsGrouped (p : Peripheral) : Prop := ∀ rule ∈ rulesOf p.name, rule.Spent p.registers

theorem groupClusters_of_isGrouped {p : Peripheral} (hsorted : sortAll p.registers = p.registers)
    (hintact : rulesOf p.name ≠ [] → isIntactAll p.registers = true) (h : p.IsGrouped) :
    p.groupClusters = .pure p := by
  unfold groupClusters
  split
  · rfl
  · have hsort : p.sort = p := by rw [sort, hsorted]
    have hrules : (rulesOf p.name).foldl (fun o rule => o.andThen rule.apply) (Outcome.pure p) =
        .pure p := by
      by_cases hnone : rulesOf p.name = []
      · rw [hnone]
        rfl
      · exact foldl_of_spent hsorted (hintact hnone) h
    rw [hrules]
    exact congrArg Outcome.pure hsort

/-- Grouping leaves no more registers than there were, and as many only where it finds nothing. -/
theorem countAll_groupClusters {p : Peripheral} (hown : p.isDerived = false)
    (hsorted : sortAll p.registers = p.registers)
    (hintact : rulesOf p.name ≠ [] → isIntactAll p.registers = true) :
    countAll p.groupClusters.state.registers ≤ countAll p.registers ∧
      (countAll p.registers ≤ countAll p.groupClusters.state.registers → p.IsGrouped) := by
  have hstate : countAll p.groupClusters.state.registers =
      countAll ((rulesOf p.name).foldl (fun o rule => o.andThen rule.apply)
        (Outcome.pure p)).state.registers := by
    unfold groupClusters
    rw [if_neg (by simp [hown])]
    exact countAll_sortAll _
  rw [hstate]
  refine ⟨countAll_foldl (rulesOf p.name) _, fun h => ?_⟩
  by_cases hnone : rulesOf p.name = []
  · intro rule hrule
    rw [hnone] at hrule
    exact absurd hrule List.not_mem_nil
  · exact spent_of_foldl hsorted (hintact hnone) h

/-- What was grouped is in order, and nothing in it is deleted if nothing was or there are rules. -/
theorem arranged_groupClusters {p : Peripheral} (hown : p.isDerived = false) :
    sortAll p.groupClusters.state.registers = p.groupClusters.state.registers ∧
      (isIntactAll p.registers = true ∨ rulesOf p.name ≠ [] →
        isIntactAll p.groupClusters.state.registers = true) := by
  have hstate : p.groupClusters.state.registers =
      sortAll ((rulesOf p.name).foldl (fun o rule => o.andThen rule.apply)
        (Outcome.pure p)).state.registers := by
    unfold groupClusters
    rw [if_neg (by simp [hown])]
    rfl
  rw [hstate, sortAll_sortAll, isIntactAll_sortAll]
  exact ⟨rfl, fun h => isIntactAll_foldl rfl h⟩

end Peripheral

end RegisterMap
