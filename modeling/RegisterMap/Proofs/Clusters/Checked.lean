import RegisterMap.Proofs.Clusters.Members

/-!
# Offsets below zero

Grouping subtracts offsets in two places: that of the first instance from that of a later one, and
that of the cluster from that of a member. Here is the grouping that gives no result when a
difference would be below zero (`Peripheral.checkedGroupClusters`). On a level in layout order no
instance lies in front of the first one, and a cluster never behind a member, so it is the grouping
that runs (`Peripheral.checkedGroupClusters_eq`).
-/

namespace RegisterMap.Clusters

open Element

/-! ## Grouping with checked differences -/

/-- The difference, unless it is below zero. -/
def minus? (a b : Nat) : Option Nat := if b ≤ a then some (a - b) else none

/-- `Seed.instance?` with a checked distance, which is only taken of a register of the member. -/
def Seed.checkedInstance? (s : Seed) (e : Element) : Option (Option (Register × Nat × String)) :=
  match s.rule.register? e with
  | none => some none
  | some (r, part) =>
    if part.array == s.part.array && part.member == s.part.member then
      (minus? r.offset s.register.offset).map fun distance =>
        if distance != 0 then some (r, distance, part.index) else none
    else some none

/-- `Seed.gather` with checked distances. -/
def Seed.checkedGather (s : Seed) : Instances → List Element → Option (Instances × List Element)
  | i, [] => some (i, [])
  | i, e :: es =>
    match s.checkedInstance? e with
    | none => none
    | some none => (s.checkedGather i es).map fun (i, es) => (i, e :: es)
    | some (some (r, distance, index)) =>
      if i.expects distance then
        (s.checkedGather (i.push distance index) es).map fun (i, es) => (i, e.delete :: es)
      else
        (s.checkedGather (i.warn s r distance) es).map fun (i, es) => (i, e :: es)

theorem Seed.length_checkedGather (s : Seed) {i : Instances} {es : List Element}
    {gathered : Instances × List Element} (h : s.checkedGather i es = some gathered) :
    gathered.2.length = es.length := by
  induction es generalizing i gathered with
  | nil =>
    cases h
    rfl
  | cons e es ih =>
    unfold checkedGather at h
    split at h
    · cases h
    · obtain ⟨rest, hrest, rfl⟩ := Option.map_eq_some_iff.1 h
      rw [List.length_cons, List.length_cons, ih hrest]
    · split at h
      all_goals
        obtain ⟨rest, hrest, rfl⟩ := Option.map_eq_some_iff.1 h
        rw [List.length_cons, List.length_cons, ih hrest]

/-- `Rule.group` with checked distances. -/
def Rule.checkedGroup (rule : Rule) (peripheral : String) : Found → List Element → Option Grouped
  | found, [] => some { found }
  | found, e :: es =>
    match rule.register? e with
    | none =>
      (rule.checkedGroup peripheral found es).map fun g => { g with elements := e :: g.elements }
    | some (r, part) =>
      let seed : Seed := { rule, peripheral, register := r, part }
      match _ : seed.checkedGather { indexes := [part.index] } es with
      | none => none
      | some gathered =>
        let instances := gathered.1
        if instances.indexes.length = 1 then
          (rule.checkedGroup peripheral found es).map fun g =>
            { g with elements := e :: g.elements, warnings := instances.warnings ++ g.warnings }
        else
          let dim : Dim := ⟨instances.stride, instances.indexes⟩
          let (c, members) := found.getD (rule.begin r.offset dim, [])
          if c.dim = some dim then
            (rule.checkedGroup peripheral (some (addMember c members r part.member))
              gathered.2).map fun g =>
              { g with
                elements := e.delete :: g.elements
                warnings := instances.warnings ++ g.warnings }
          else
            (rule.checkedGroup peripheral (some (c, members)) es).map fun g =>
              { g with
                elements := e :: g.elements
                warnings :=
                  instances.warnings ++ .clusterMismatch peripheral part.member c.baseName ::
                    g.warnings }
termination_by _ es => es.length
decreasing_by
  · simp
  · simp
  · simp [seed.length_checkedGather ‹_›]
  · simp

/-- A member at an offset of the cluster, unless it lies in front of it. -/
def rebase? (c : Cluster) (e : Element) : Option Element :=
  (minus? e.offset c.offset).map e.withOffset

/-- `assemble` with members none of which lies in front of the cluster. -/
def checkedAssemble (c : Cluster) (members : List Element) : Option Element :=
  (members.mapM (rebase? c)).map fun members => .cluster c (sortAll members)

/-- `Rule.apply` with checked differences. -/
def Rule.checkedApply (rule : Rule) (p : Peripheral) : Option (RegisterMap.Outcome Peripheral) := do
  let g ← rule.checkedGroup p.name none p.sort.registers
  let cluster ← g.found.mapM fun (c, es) => checkedAssemble c es
  some
    { state := { p with registers := sortAll (compactAll g.elements ++ cluster.toList) }
      warnings := g.warnings }

/-- Goes on with checked differences from the state of a finished step. -/
def Rule.checkedThen (o : RegisterMap.Outcome Peripheral) (rule : Rule) :
    Option (RegisterMap.Outcome Peripheral) :=
  match o.failure with
  | some _ => some o
  | none => (rule.checkedApply o.state).map fun next =>
    { next with warnings := o.warnings ++ next.warnings }

end RegisterMap.Clusters

/-- `Peripheral.groupClusters` with checked differences: nothing when an offset would go below
zero. -/
def RegisterMap.Peripheral.checkedGroupClusters (p : Peripheral) : Option (Outcome Peripheral) :=
  if p.isDerived then some (.pure p)
  else
    ((Clusters.rulesOf p.name).foldlM Clusters.Rule.checkedThen (Outcome.pure p)).map
      (Outcome.map Peripheral.sort)

namespace RegisterMap.Clusters

open Element

/-! ## No difference is below zero -/

theorem minus?_of_le {a b : Nat} (h : b ≤ a) : minus? a b = some (a - b) := if_pos h

theorem Seed.checkedInstance?_eq {s : Seed} {e : Element} (h : s.register.offset ≤ e.offset) :
    s.checkedInstance? e = some (s.instance? e) := by
  unfold checkedInstance? instance?
  cases hr : s.rule.register? e with
  | none => rfl
  | some found =>
    obtain ⟨r, part⟩ := found
    obtain ⟨rfl, -⟩ := Rule.register?_eq_some.1 hr
    have hdistance : minus? r.offset s.register.offset = some (r.offset - s.register.offset) :=
      minus?_of_le h
    simp only [hdistance, Option.map_some]
    by_cases hsame : (part.array == s.part.array && part.member == s.part.member) = true
    · simp only [hsame, Bool.true_and, if_true]
    · simp only [Bool.eq_false_iff.2 hsame, Bool.false_and, Bool.false_eq_true, if_false]

theorem Seed.checkedGather_eq (s : Seed) {es : List Element}
    (h : ∀ e ∈ es, s.register.offset ≤ e.offset) (i : Instances) :
    s.checkedGather i es = some (s.gather i es) := by
  induction es generalizing i with
  | nil => rfl
  | cons e es ih =>
    obtain ⟨he, hes⟩ := List.forall_mem_cons.1 h
    rw [checkedGather, gather, checkedInstance?_eq he]
    cases s.instance? e with
    | none => simp only [ih hes, Option.map_some]
    | some found =>
      simp only
      split
      · rw [ih hes, Option.map_some]
      · rw [ih hes, Option.map_some]

/-- What was gathered of a level in order is in order. -/
theorem Seed.pairwise_offset_gather (s : Seed) {i : Instances} (hbegun : i.IsBegun)
    {es : List Element} (h : es.Pairwise fun a b => a.offset ≤ b.offset) :
    (s.gather i es).2.Pairwise fun a b => a.offset ≤ b.offset := by
  have hoffsets := List.pairwise_map.2 h
  rw [← map_offset_of_gathered (s.gather_spec hbegun es).2] at hoffsets
  exact List.pairwise_map.1 hoffsets

/-- Behind the first register of a level in order all distances can be taken. -/
theorem Rule.checkedGather_eq {rule : Rule} (peripheral : String) {e : Element} {es : List Element}
    {r : Register} {part : Part} (hr : rule.register? e = some (r, part))
    (h : (e :: es).Pairwise fun a b => a.offset ≤ b.offset) (i : Instances) :
    Seed.checkedGather ⟨rule, peripheral, r, part⟩ i es =
      some (Seed.gather ⟨rule, peripheral, r, part⟩ i es) := by
  obtain ⟨rfl, -⟩ := register?_eq_some.1 hr
  exact Seed.checkedGather_eq _ (List.pairwise_cons.1 h).1 i

/-- At a register in a level in order, the checked grouping goes on with what is gathered behind. -/
theorem Rule.checkedGroup_cons (rule : Rule) (peripheral : String) (found : Found) {e : Element}
    {es : List Element} {r : Register} {part : Part} (hr : rule.register? e = some (r, part))
    (h : (e :: es).Pairwise fun a b => a.offset ≤ b.offset) :
    rule.checkedGroup peripheral found (e :: es) =
      let gathered := Seed.gather ⟨rule, peripheral, r, part⟩ { indexes := [part.index] } es
      let instances := gathered.1
      if instances.indexes.length = 1 then
        (rule.checkedGroup peripheral found es).map fun g =>
          { g with elements := e :: g.elements, warnings := instances.warnings ++ g.warnings }
      else
        let dim : Dim := ⟨instances.stride, instances.indexes⟩
        let (c, members) := found.getD (rule.begin r.offset dim, [])
        if c.dim = some dim then
          (rule.checkedGroup peripheral (some (addMember c members r part.member))
            gathered.2).map fun g =>
            { g with
              elements := e.delete :: g.elements
              warnings := instances.warnings ++ g.warnings }
        else
          (rule.checkedGroup peripheral (some (c, members)) es).map fun g =>
            { g with
              elements := e :: g.elements
              warnings :=
                instances.warnings ++ .clusterMismatch peripheral part.member c.baseName ::
                  g.warnings } := by
  have hchecked := checkedGather_eq peripheral hr h { indexes := [part.index] }
  rw [checkedGroup]
  simp only [hr]
  split
  · rename_i hnone
    cases hchecked.symm.trans hnone
  · rename_i gathered hsome
    cases hchecked.symm.trans hsome
    rfl

theorem Rule.checkedGroup_eq (rule : Rule) (peripheral : String) {found : Found}
    {es : List Element} (h : es.Pairwise fun a b => a.offset ≤ b.offset) :
    rule.checkedGroup peripheral found es = some (rule.group peripheral found es) := by
  fun_induction Rule.group rule peripheral found es with
  | case1 found => rw [checkedGroup]
  | case2 found e es hnone g ih =>
    rw [checkedGroup, hnone]
    simp only [ih h.of_cons, Option.map_some]
    rfl
  | case3 found e es r part hr seed gathered instances hlone g ih =>
    rw [rule.checkedGroup_cons peripheral found hr h, if_pos hlone, ih h.of_cons]
    rfl
  | case4 found e es r part hr seed gathered instances hmany dim c members hc hdim g ih =>
    have hsorted := seed.pairwise_offset_gather (i := { indexes := [part.index] })
      (fun _ => rfl) h.of_cons
    rw [rule.checkedGroup_cons peripheral found hr h, if_neg hmany]
    simp only
    rw [hc, if_pos hdim, ih hsorted]
    rfl
  | case5 found e es r part hr seed gathered instances hmany dim c members hc hdim g ih =>
    rw [rule.checkedGroup_cons peripheral found hr h, if_neg hmany]
    simp only
    rw [hc, if_neg hdim, ih h.of_cons]
    rfl

/-- The members of the cluster that was found do not lie in front of it. -/
theorem Rule.IsSound.forall_offset_le {rule : Rule} {level : List Element} {found : Found}
    (h : rule.IsSound level found) {c : Cluster} {members : List Element}
    (hfound : found = some (c, members)) :
    ∀ m ∈ members, ∃ r, m = .register r ∧ c.offset ≤ r.offset := fun m hm => by
  obtain ⟨-, -, hmembers⟩ := h c members hfound
  obtain ⟨f, part, rfl, -, -, -, hoffset⟩ := hmembers m hm
  exact ⟨_, rfl, hoffset⟩

theorem checkedAssemble_eq {c : Cluster} {members : List Element}
    (h : ∀ m ∈ members, c.offset ≤ m.offset) :
    checkedAssemble c members = some (assemble c members) := by
  have hrebased : members.mapM (rebase? c) =
      some (members.map fun e => e.withOffset (e.offset - c.offset)) := by
    induction members with
    | nil => rfl
    | cons m members ih =>
      obtain ⟨hm, hmembers⟩ := List.forall_mem_cons.1 h
      rw [List.mapM_cons, ih hmembers, rebase?, minus?_of_le hm]
      rfl
  rw [checkedAssemble, hrebased]
  rfl

theorem Rule.checkedApply_eq (rule : Rule) (p : Peripheral) :
    rule.checkedApply p = some (rule.apply p) := by
  have hgroup : rule.checkedGroup p.name none p.sort.registers =
      some (rule.group p.name none p.sort.registers) :=
    rule.checkedGroup_eq p.name (pairwise_offset_sortLevel _)
  have hcluster : (rule.group p.name none p.sort.registers).found.mapM
        (fun (c, es) => checkedAssemble c es) =
      some ((rule.group p.name none p.sort.registers).found.map fun (c, es) => assemble c es) := by
    cases hfound : (rule.group p.name none p.sort.registers).found with
    | none => rfl
    | some cluster =>
      obtain ⟨c, members⟩ := cluster
      have hbehind : ∀ m ∈ members, c.offset ≤ m.offset := fun m hm => by
        obtain ⟨r, rfl, hoffset⟩ := (rule.group_sortAll_spec p).1.forall_offset_le hfound m hm
        exact hoffset
      rw [Option.mapM_some]
      show some <$> checkedAssemble c members = _
      rw [checkedAssemble_eq hbehind]
      rfl
  rw [checkedApply, hgroup, Option.bind_eq_bind, Option.bind_some, hcluster]
  rfl

theorem Rule.checkedThen_eq (o : RegisterMap.Outcome Peripheral) (rule : Rule) :
    rule.checkedThen o = some (o.andThen rule.apply) := by
  unfold checkedThen RegisterMap.Outcome.andThen
  cases o.failure with
  | some f => rfl
  | none =>
    rw [rule.checkedApply_eq]
    rfl

theorem foldlM_checkedThen (rules : List Rule) (o : RegisterMap.Outcome Peripheral) :
    rules.foldlM Rule.checkedThen o =
      some (rules.foldl (fun o rule => o.andThen rule.apply) o) := by
  induction rules generalizing o with
  | nil => rfl
  | cons rule rules ih =>
    rw [List.foldlM_cons, Rule.checkedThen_eq, Option.bind_eq_bind, Option.bind_some, ih,
      List.foldl_cons]

end RegisterMap.Clusters

/-- No offset goes below zero: the grouping with checked differences is the grouping. -/
theorem RegisterMap.Peripheral.checkedGroupClusters_eq (p : Peripheral) :
    p.checkedGroupClusters = some p.groupClusters := by
  unfold checkedGroupClusters groupClusters
  split
  · rfl
  · rw [Clusters.foldlM_checkedThen]
    rfl
