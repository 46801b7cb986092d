import Mathlib
import RegisterMap.Proofs.Clusters.Checked
import RegisterMap.Proofs.Instance

/-!
# Grouping moves no register

Where the registers of a tree start, those in an array of clusters once in each of its elements
(`Element.startsAll`). The instances of a member start where they are expected
(`Seed.starts_gather`), so that a cluster of first instances stands for all of them
(`Rule.starts_group`). Grouping changes no more than the order of the starts
(`Peripheral.groupClusters_starts`).
-/

namespace RegisterMap

namespace Element

mutual

/-- Where the registers of an element start whose owner lies at an address: a register at its
offset, array or not, and what is in a cluster in each element of the cluster. -/
def starts (base : Nat) : Element → List Nat
  | register r => [base + r.offset]
  | cluster c es =>
    (List.range (Dim.countOf c.dim)).flatMap fun i =>
      startsAll (base + c.offset + i * Dim.strideOf c.dim) es

/-- Where the registers of elements start whose owner lies at an address. -/
def startsAll (base : Nat) : List Element → List Nat
  | [] => []
  | e :: es => e.starts base ++ startsAll base es

end

theorem startsAll_eq_flatMap (base : Nat) (es : List Element) :
    startsAll base es = es.flatMap (starts base) := by
  induction es with
  | nil => rfl
  | cons e es ih => rw [startsAll, ih, List.flatMap_cons]

theorem startsAll_append (base : Nat) (es fs : List Element) :
    startsAll base (es ++ fs) = startsAll base es ++ startsAll base fs := by
  simp only [startsAll_eq_flatMap, List.flatMap_append]

theorem startsAll_perm (base : Nat) {es fs : List Element} (h : es.Perm fs) :
    (startsAll base es).Perm (startsAll base fs) := by
  simp only [startsAll_eq_flatMap]
  exact h.flatMap_right _

theorem starts_sortWithin (e : Element) :
    ∀ base, (e.sortWithin.starts base).Perm (e.starts base) := by
  induction e using tree_induction with
  | register r => exact fun _ => .refl _
  | cluster c es ih =>
    intro base
    rw [sortWithin, starts, starts]
    refine List.Perm.flatMap_left _ fun i _ => (startsAll_perm _ (sortLevel_perm _)).trans ?_
    rw [sortEach_eq_map, startsAll_eq_flatMap, startsAll_eq_flatMap, List.flatMap_map]
    exact List.Perm.flatMap_left _ fun e he => ih e he _

/-- Sorting the tree at every level only moves the starts. -/
theorem startsAll_sortAll (base : Nat) (es : List Element) :
    (startsAll base (sortAll es)).Perm (startsAll base es) := by
  refine (startsAll_perm _ (sortLevel_perm _)).trans ?_
  rw [sortEach_eq_map, startsAll_eq_flatMap, startsAll_eq_flatMap, List.flatMap_map]
  exact List.Perm.flatMap_left _ fun e _ => starts_sortWithin e _

/-- Where registers start that are not deleted. -/
def liveStarts (es : List Element) : List Nat := startsAll 0 (compactAll es)

theorem liveStarts_cons (e : Element) (es : List Element) :
    liveStarts (e :: es) = liveStarts [e] ++ liveStarts es := by
  unfold liveStarts
  rw [← startsAll_append, compactAll_eq_map, compactAll_eq_map, compactAll_eq_map,
    ← List.map_append, ← List.filter_append, List.singleton_append]

/-- An element that is on both sides may be left out. -/
theorem liveStarts_cons_perm {s t : List Nat} {es fs : List Element} (e : Element)
    (h : (s ++ liveStarts es).Perm (t ++ liveStarts fs)) :
    (s ++ liveStarts (e :: es)).Perm (t ++ liveStarts (e :: fs)) := by
  rw [liveStarts_cons e es, liveStarts_cons e fs]
  exact (List.perm_append_comm_assoc _ _ _).trans
    ((h.append_left _).trans (List.perm_append_comm_assoc _ _ _))

theorem liveStarts_deleted {e : Element} (h : e.deleted = true) : liveStarts [e] = [] := by
  simp [liveStarts, compactAll, h, startsAll]

theorem liveStarts_register {r : Register} (h : r.deleted = false) :
    liveStarts [.register r] = [r.offset] := by
  have hdeleted : (Element.register r).deleted = false := h
  simp [liveStarts, compactAll, hdeleted, compact, startsAll, starts]

theorem liveStarts_of_isIntactAll {es : List Element} (h : isIntactAll es = true) :
    liveStarts es = startsAll 0 es := by
  rw [liveStarts, compactAll_of_isIntactAll es h]

end Element

namespace Clusters

open Element List

/-! ## Instances of one member -/

/-- Where the instances of a member start, from one of them on. -/
def Seed.startsFrom (s : Seed) (i : Instances) (first : Nat) : List Nat :=
  (List.range' first (i.indexes.length - first)).map fun k => s.register.offset + k * i.stride

theorem Seed.startsFrom_eq_cons (s : Seed) {i : Instances} {k : Nat} (h : k < i.indexes.length) :
    s.startsFrom i k = (s.register.offset + k * i.stride) :: s.startsFrom i (k + 1) := by
  have hlength : i.indexes.length - k = (i.indexes.length - (k + 1)) + 1 := by omega
  rw [startsFrom, hlength, List.range'_succ, List.map_cons]
  rfl

/-- The instances that are taken start one after the other where expected, and the others stay. -/
theorem Seed.starts_gather (s : Seed) {i : Instances} (hbegun : i.IsBegun) {es : List Element}
    (hes : ∀ e ∈ es, s.register.offset ≤ e.offset) :
    (s.startsFrom (s.gather i es).1 i.indexes.length ++ liveStarts (s.gather i es).2).Perm
      (liveStarts es) := by
  induction es generalizing i with
  | nil =>
    rw [gather, startsFrom, Nat.sub_self]
    exact .refl _
  | cons e es ih =>
    obtain ⟨he, hes'⟩ := List.forall_mem_cons.1 hes
    rw [gather]
    cases hinstance : s.instance? e with
    | none => exact liveStarts_cons_perm (t := []) e (ih hbegun hes')
    | some found =>
      obtain ⟨r, distance, index⟩ := found
      by_cases hexpected : i.expects distance = true
      · simp only [if_pos hexpected]
        obtain ⟨part, rfl, hintact, -, -, -, -, hdistance, hne⟩ := instance?_eq_some hinstance
        have hplace := Instances.distance_eq_of_expects hbegun hexpected index
        have hpushed : (i.push distance index).stride ≠ 0 := fun hzero => by
          rw [hzero, Nat.mul_zero] at hplace
          exact hne hplace
        have hbegun' : (i.push distance index).IsBegun := fun hzero => absurd hzero hpushed
        obtain ⟨hextends, -⟩ := s.gather_spec hbegun' es
        have hih := ih hbegun' hes'
        have hlength : (i.push distance index).indexes.length = i.indexes.length + 1 :=
          List.length_append
        rw [hlength] at hih
        have hlt : i.indexes.length < (s.gather (i.push distance index) es).1.indexes.length := by
          have hle := List.IsPrefix.length_le hextends.indexes_prefix
          omega
        have hstart : r.offset = s.register.offset +
            i.indexes.length * (s.gather (i.push distance index) es).1.stride := by
          rw [hextends.stride_eq hpushed, ← hplace, hdistance]
          exact (Nat.add_sub_cancel' he).symm
        rw [s.startsFrom_eq_cons hlt, ← hstart, liveStarts_cons,
          liveStarts_deleted (deleted_delete _), liveStarts_cons (.register r) es,
          liveStarts_register hintact]
        exact hih.cons _
      · simp only [if_neg hexpected]
        exact liveStarts_cons_perm (t := []) e (ih (i := i.warn s r distance) hbegun hes')

/-! ## The cluster -/

/-- Where the registers start that the members of the cluster stand for. -/
def foundStarts (found : Found) : List Nat :=
  found.toList.flatMap fun (c, members) =>
    (List.range (Dim.countOf c.dim)).flatMap fun i =>
      startsAll (i * Dim.strideOf c.dim) members

/-- One more member stands for as many registers as the cluster has elements. -/
theorem foundStarts_addMember {c : Cluster} {d : Dim} (hdim : c.dim = some d)
    (members : List Element) (r : Register) (name : String) :
    (foundStarts (some (addMember c members r name))).Perm
      (((List.range d.count).map fun i => r.offset + i * d.stride) ++
        foundStarts (some (c, members))) := by
  have hsplit : foundStarts (some (addMember c members r name)) =
      (List.range d.count).flatMap fun i =>
        startsAll (i * d.stride) members ++ [r.offset + i * d.stride] := by
    simp [foundStarts, addMember, hdim, Dim.countOf, Dim.strideOf, startsAll_append, startsAll,
      starts, Nat.add_comm]
  have hmembers : foundStarts (some (c, members)) =
      (List.range d.count).flatMap fun i => startsAll (i * d.stride) members := by
    simp [foundStarts, hdim, Dim.countOf, Dim.strideOf]
  rw [hsplit, hmembers, List.map_eq_flatMap]
  exact (List.flatMap_append_perm _ _ _).symm.trans List.perm_append_comm

/-- A cluster that has just begun stands for no register. -/
theorem Rule.foundStarts_getD (rule : Rule) {found : Found} {offset : Nat} {dim : Dim} {c : Cluster}
    {members : List Element} (h : found.getD (rule.begin offset dim, []) = (c, members)) :
    foundStarts found = foundStarts (some (c, members)) := by
  cases found with
  | none =>
    cases h
    simp [foundStarts, startsAll]
  | some cluster => rw [← h, Option.getD_some]

/-- What a member stands for starts where the instances were, and all others stay. -/
theorem Rule.starts_group (rule : Rule) (peripheral : String) {found : Found} {es : List Element}
    (hes : es.Pairwise fun a b => a.offset ≤ b.offset) :
    (foundStarts (rule.group peripheral found es).found ++
      liveStarts (rule.group peripheral found es).elements).Perm
      (foundStarts found ++ liveStarts es) := by
  fun_induction Rule.group rule peripheral found es with
  | case1 found => exact .refl _
  | case2 found e es hnone g ih => exact liveStarts_cons_perm e (ih hes.of_cons)
  | case3 found e es r part hr seed gathered instances hlone g ih =>
    exact liveStarts_cons_perm e (ih hes.of_cons)
  | case4 found e es r part hr seed gathered instances hmany dim c members hc hdim g ih =>
    obtain ⟨rfl, hintact, -⟩ := Rule.register?_eq_some.1 hr
    have hbegun : Instances.IsBegun { indexes := [part.index] } := fun _ => rfl
    obtain ⟨hextends, -⟩ := seed.gather_spec hbegun es
    have hgather : (seed.startsFrom instances 1 ++ liveStarts gathered.2).Perm (liveStarts es) :=
      seed.starts_gather hbegun (List.pairwise_cons.1 hes).1
    have hall : ((List.range dim.count).map fun i => r.offset + i * dim.stride) =
        r.offset :: seed.startsFrom instances 1 := by
      have hpos : 0 < instances.indexes.length :=
        List.IsPrefix.length_le hextends.indexes_prefix
      have hfrom := seed.startsFrom_eq_cons hpos
      rw [Nat.zero_mul, Nat.add_zero] at hfrom
      rw [← hfrom, List.range_eq_range']
      rfl
    have hmember := foundStarts_addMember hdim members r part.member
    rw [hall] at hmember
    rw [liveStarts_cons, liveStarts_deleted (deleted_delete _), List.nil_append,
      liveStarts_cons (.register r) es, liveStarts_register hintact, rule.foundStarts_getD hc]
    calc foundStarts g.found ++ liveStarts g.elements
      _ ~ foundStarts (some (addMember c members r part.member)) ++ liveStarts gathered.2 :=
        ih (seed.pairwise_offset_gather hbegun hes.of_cons)
      _ ~ (r.offset :: seed.startsFrom instances 1 ++ foundStarts (some (c, members))) ++
          liveStarts gathered.2 := hmember.append_right _
      _ ~ foundStarts (some (c, members)) ++
          (r.offset :: seed.startsFrom instances 1 ++ liveStarts gathered.2) := by
        rw [List.append_assoc]
        exact List.perm_append_comm_assoc _ _ _
      _ ~ foundStarts (some (c, members)) ++ ([r.offset] ++ liveStarts es) :=
        (hgather.cons r.offset).append_left _
  | case5 found e es r part hr seed gathered instances hmany dim c members hc hdim g ih =>
    rw [rule.foundStarts_getD hc]
    exact liveStarts_cons_perm e (ih hes.of_cons)

/-- The cluster has its registers where the members were. -/
theorem starts_assemble {c : Cluster} {members : List Element}
    (h : ∀ m ∈ members, ∃ r, m = .register r ∧ c.offset ≤ r.offset) :
    ((assemble c members).starts 0).Perm (foundStarts (some (c, members))) := by
  have hfound : foundStarts (some (c, members)) =
      (List.range (Dim.countOf c.dim)).flatMap fun i =>
        startsAll (i * Dim.strideOf c.dim) members := by
    simp [foundStarts]
  rw [hfound, assemble, starts]
  refine List.Perm.flatMap_left _ fun i _ => (startsAll_sortAll _ _).trans ?_
  rw [startsAll_eq_flatMap, startsAll_eq_flatMap, List.flatMap_map]
  refine List.Perm.flatMap_left _ fun m hm => ?_
  obtain ⟨r, rfl, hoffset⟩ := h m hm
  show [0 + c.offset + i * Dim.strideOf c.dim + (r.offset - c.offset)].Perm
    [i * Dim.strideOf c.dim + r.offset]
  rw [show 0 + c.offset + i * Dim.strideOf c.dim + (r.offset - c.offset) =
    i * Dim.strideOf c.dim + r.offset by omega]

/-! ## One rule after the other -/

theorem Rule.starts_apply (rule : Rule) {p : Peripheral} (h : isIntactAll p.registers = true) :
    (startsAll 0 (rule.apply p).state.registers).Perm (startsAll 0 p.registers) := by
  let g := rule.group p.name none (sortAll p.registers)
  let made := (g.found.map fun (c, es) => assemble c es).toList
  have hgroup : (foundStarts g.found ++ liveStarts g.elements).Perm
      (liveStarts (sortAll p.registers)) :=
    rule.starts_group p.name (pairwise_offset_sortLevel _)
  have hmade : (startsAll 0 made).Perm (foundStarts g.found) := by
    unfold made
    cases hfound : g.found with
    | none => exact .refl _
    | some cluster =>
      obtain ⟨c, members⟩ := cluster
      show ((assemble c members).starts 0 ++ []).Perm _
      rw [List.append_nil]
      exact starts_assemble ((rule.group_sortAll_spec p).1.forall_offset_le hfound)
  have hintact : isIntactAll (sortAll p.registers) = true := (isIntactAll_sortAll _).trans h
  calc startsAll 0 (rule.apply p).state.registers
    _ ~ startsAll 0 (compactAll g.elements ++ made) := startsAll_sortAll 0 _
    _ ~ liveStarts g.elements ++ foundStarts g.found := by
        rw [startsAll_append]
        exact hmade.append_left _
    _ ~ liveStarts (sortAll p.registers) := List.perm_append_comm.trans hgroup
    _ ~ startsAll 0 p.registers := by
        rw [liveStarts_of_isIntactAll hintact]
        exact startsAll_sortAll 0 _

/-- Nothing that a rule leaves is deleted. -/
theorem Rule.isIntactAll_apply (rule : Rule) (p : Peripheral) :
    isIntactAll (rule.apply p).state.registers = true := by
  refine isIntactAll_iff.2 fun e he => ?_
  obtain ⟨f, rfl, hf | ⟨c, members, hfound, rfl⟩⟩ := (rule.mem_apply_iff p).1 he
  · rw [isIntact_sortWithin]
    exact isIntactAll_iff.1 (isIntactAll_compactAll _) f hf
  · obtain ⟨-, hdeleted, hmembers⟩ := (rule.group_sortAll_spec p).1 c members hfound
    rw [sortWithin_assemble, assemble, isIntact, hdeleted, Bool.not_false, Bool.true_and,
      isIntactAll_sortAll]
    refine isIntactAll_iff.2 fun m hm => ?_
    obtain ⟨m', hm', rfl⟩ := List.mem_map.1 hm
    obtain ⟨f, part, rfl, -⟩ := hmembers m' hm'
    rfl

theorem starts_foldl (rules : List Rule) {o : RegisterMap.Outcome Peripheral}
    (h : isIntactAll o.state.registers = true) :
    (startsAll 0
      (rules.foldl (fun o rule => o.andThen rule.apply) o).state.registers).Perm
      (startsAll 0 o.state.registers) := by
  induction rules generalizing o with
  | nil => exact .refl _
  | cons rule rules ih =>
    rw [List.foldl_cons]
    cases hfailure : o.failure with
    | some f =>
      rw [RegisterMap.Outcome.andThen_of_failure hfailure]
      exact ih h
    | none =>
      have hstate : (o.andThen rule.apply).state = (rule.apply o.state).state := by
        rw [RegisterMap.Outcome.andThen, hfailure]
      have hrest := ih (o := o.andThen rule.apply) (by
        rw [hstate]
        exact rule.isIntactAll_apply o.state)
      rw [hstate] at hrest
      exact hrest.trans (rule.starts_apply h)

end Clusters

namespace Peripheral

open Element Clusters

/-- **Grouping moves no register.** The pass never fails, and the registers of a peripheral start
where they started before, as often as before. No difference of offsets that the pass takes is below
zero. -/
theorem groupClusters_starts {p : Peripheral} (h : isIntactAll p.registers = true) :
    p.groupClusters.failure = none ∧
      (startsAll 0 p.groupClusters.state.registers).Perm (startsAll 0 p.registers) ∧
      p.checkedGroupClusters = some p.groupClusters := by
  refine ⟨p.reached_groupClusters.1, ?_, p.checkedGroupClusters_eq⟩
  unfold groupClusters
  split
  · exact .refl _
  · exact (startsAll_sortAll 0 _).trans
      (starts_foldl (rulesOf p.name) (o := Outcome.pure p) h)

/-- Two channels, with the registers of one kind behind those of the other, and a register in front
that the rule does not know. -/
private def channelPair : Peripheral :=
  { name := "PIT", baseAddress := 0,
    registers := [.register (.plain "MCR" 0 32), .register (.plain "CVAL0" 20 32),
      .register (.plain "CVAL1" 36 32), .register (.plain "LDVAL0" 16 32),
      .register (.plain "LDVAL1" 32 32)] }

/-- The cluster starts at the lowest of its members, which was found first. -/
theorem groupClusters_starts_channelPair :
    isIntactAll channelPair.registers = true ∧
      channelPair.groupClusters.state.registers =
        [.register (.plain "MCR" 0 32),
          .cluster { name := "CHANNEL,@p@f@i", offset := 16, dim := some (.counted 16 2) }
            [.register (.plain "LDVAL" 0 32), .register (.plain "CVAL" 4 32)]] ∧
      (startsAll 0 channelPair.groupClusters.state.registers).Perm [0, 20, 36, 16, 32] ∧
      channelPair.checkedGroupClusters = some channelPair.groupClusters := by
  obtain ⟨-, hstarts, hchecked⟩ := groupClusters_starts (p := channelPair) rfl
  exact ⟨rfl, by cbv, hstarts, hchecked⟩

end Peripheral

end RegisterMap
