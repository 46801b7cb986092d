import RegisterMap.Peripheral
import RegisterMap.Proofs.Instance

/-!
# Observing a tree

The walk over a tree observes the words of its registers, each under a token of isolation. Walks
are put together from those of single words (`Peripheral.Walks`). They hand out new tokens in order,
so that those of one instance of an isolated element are tokens that no other word gets
(`Peripheral.Secluded`). `Peripheral.exists_marks` says so of the observations of a peripheral.
-/

namespace RegisterMap

/-! ## Instances of elements -/

namespace Element

/-- The words of an element whose owner lies at an address, instance by instance. -/
def units (base : Nat) : Element → List (List Instance)
  | register r => ((register r).instances base).map fun w => [w]
  | cluster c es =>
    (List.range (Dim.countOf c.dim)).map fun i =>
      instancesAll (base + c.offset + i * Dim.strideOf c.dim) es

/-- Somewhere in the elements, whose owner lies at `base`, is the element `e`; the instance of the
cluster that holds it lies at `owner`. -/
inductive Occurs (owner : Nat) (e : Element) : (base : Nat) → (es : List Element) → Prop
  | here {es : List Element} (h : e ∈ es) : Occurs owner e owner es
  | inside {base i : Nat} {es fs : List Element} {c : Cluster} (hc : cluster c fs ∈ es)
      (hi : i < Dim.countOf c.dim)
      (h : Occurs owner e (base + c.offset + i * Dim.strideOf c.dim) fs) : Occurs owner e base es

/-- The words are those of one instance of an isolated element. -/
def IsIsolatedUnit (base : Nat) (es : List Element) (u : List Instance) : Prop :=
  ∃ owner e, Occurs owner e base es ∧ e.flags.isolated = true ∧ u ∈ e.units owner

theorem IsIsolatedUnit.cons {base : Nat} {e : Element} {es : List Element} {u : List Instance}
    (h : IsIsolatedUnit base (e :: es) u) :
    IsIsolatedUnit base [e] u ∨ IsIsolatedUnit base es u := by
  obtain ⟨owner, f, hf, hisolated, hu⟩ := h
  cases hf with
  | here hf =>
    rcases List.mem_cons.1 hf with rfl | hf
    · exact .inl ⟨_, _, .here List.mem_cons_self, hisolated, hu⟩
    · exact .inr ⟨_, _, .here hf, hisolated, hu⟩
  | inside hc hi hf =>
    rcases List.mem_cons.1 hc with rfl | hc
    · exact .inl ⟨_, _, .inside List.mem_cons_self hi hf, hisolated, hu⟩
    · exact .inr ⟨_, _, .inside hc hi hf, hisolated, hu⟩

theorem not_isIsolatedUnit_nil {base : Nat} {u : List Instance} : ¬IsIsolatedUnit base [] u := by
  rintro ⟨owner, f, hf, -⟩
  cases hf with
  | here hf => cases hf
  | inside hc => cases hc

theorem IsIsolatedUnit.of_register {base : Nat} {r : Register} {u : List Instance}
    (h : IsIsolatedUnit base [register r] u) :
    r.flags.isolated = true ∧ ∃ i < Dim.countOf r.dim,
      u = [⟨base + r.offset + i * Dim.strideOf r.dim, r, i⟩] := by
  obtain ⟨owner, f, hf, hisolated, hu⟩ := h
  cases hf with
  | here hf =>
    cases List.mem_singleton.1 hf
    refine ⟨hisolated, ?_⟩
    simp only [units, instances, List.map_map, List.mem_map, List.mem_range] at hu
    obtain ⟨i, hi, rfl⟩ := hu
    exact ⟨i, hi, rfl⟩
  | inside hc => cases List.mem_singleton.1 hc

theorem IsIsolatedUnit.of_cluster {base : Nat} {c : Cluster} {es : List Element}
    {u : List Instance} (h : IsIsolatedUnit base [cluster c es] u) :
    ∃ i < Dim.countOf c.dim,
      c.flags.isolated = true ∧ u = instancesAll (base + c.offset + i * Dim.strideOf c.dim) es ∨
        IsIsolatedUnit (base + c.offset + i * Dim.strideOf c.dim) es u := by
  obtain ⟨owner, f, hf, hisolated, hu⟩ := h
  cases hf with
  | here hf =>
    cases List.mem_singleton.1 hf
    simp only [units, List.mem_map, List.mem_range] at hu
    obtain ⟨i, hi, rfl⟩ := hu
    exact ⟨i, hi, .inl ⟨hisolated, rfl⟩⟩
  | inside hc hi hf =>
    cases List.mem_singleton.1 hc
    exact ⟨_, hi, .inr ⟨owner, f, hf, hisolated, hu⟩⟩

end Element

/-! ## Walks -/

/-- What is seen of a word under a token. -/
def Instance.observed (w : Instance) (token : Nat) : Observation :=
  ⟨w.address, w.register.elementSize, w.register.elementSize, w.register.access, token⟩

namespace Peripheral

open Element

theorem strides_eq_map (d : Option Dim) :
    strides d = (List.range (Dim.countOf d)).map (· * Dim.strideOf d) := by
  cases d <;> rfl

/-- Words with the tokens under which they are observed. -/
abbrev Marks := List (Instance × Nat)

/-- What is seen of marked words. -/
def Marks.observations (ms : Marks) : List Observation := ms.map fun m => m.1.observed m.2

theorem Marks.observations_append (ms ns : Marks) :
    (ms ++ ns).observations = ms.observations ++ ns.observations := List.map_append

/-- The words have tokens behind `last` that no other marked word has. -/
def Secluded (last : Nat) (ms : Marks) (u : List Instance) : Prop :=
  ∃ own others, ms.Perm (own ++ others) ∧ own.map Prod.fst = u ∧
    ∀ m ∈ own, last < m.2 ∧ ∀ n ∈ others, m.2 ≠ n.2

/-- From `last` up to `next` tokens are handed out; a word without one of them has that of its
group. -/
structure Handed (group last next : Nat) (ms : Marks) : Prop where
  le : last ≤ next
  token : ∀ m ∈ ms, m.2 = group ∨ last < m.2 ∧ m.2 ≤ next

/-- The walk observes the words in order, those of a group under its token and the others under new
ones, and secludes each of the units. -/
def Walks (group : Nat) (f : Observed → Observed) (ws : List Instance)
    (us : List Instance → Prop) : Prop :=
  ∀ out last, group ≤ last → ∃ (ms : Marks) (next : Nat),
    f (out, last) = (out ++ ms.observations, next) ∧ ms.map Prod.fst = ws ∧
      Handed group last next ms ∧ ∀ u, us u → Secluded last ms u

variable {group : Nat} {f g : Observed → Observed} {ws ws' : List Instance}
  {us us' : List Instance → Prop}

theorem Secluded.append_right {last next : Nat} {ms ns : Marks} {u : List Instance}
    (h : Secluded last ms u) (hms : Handed group last next ms) (hgroup : group ≤ last)
    {next' : Nat} (hns : Handed group next next' ns) : Secluded last (ms ++ ns) u := by
  obtain ⟨own, others, hperm, hu, hown⟩ := h
  refine ⟨own, others ++ ns, ?_, hu, fun m hm => ⟨(hown m hm).1, fun n hn => ?_⟩⟩
  · rw [← List.append_assoc]
    exact hperm.append_right ns
  · rcases List.mem_append.1 hn with hn | hn
    · exact (hown m hm).2 n hn
    · have hlt := (hown m hm).1
      have hle := hms.token m (hperm.mem_iff.2 (List.mem_append_left _ hm))
      have hnew := hns.token n hn
      omega

theorem Secluded.append_left {last next : Nat} {ms ns : Marks} {u : List Instance}
    (h : Secluded next ns u) (hms : Handed group last next ms) (hgroup : group ≤ last) :
    Secluded last (ms ++ ns) u := by
  obtain ⟨own, others, hperm, hu, hown⟩ := h
  have hle := hms.le
  refine ⟨own, ms ++ others, ?_, hu, fun m hm => ?_⟩
  · exact (hperm.append_left ms).trans (List.perm_append_comm_assoc ms own others)
  · obtain ⟨hlt, hother⟩ := hown m hm
    refine ⟨by omega, fun n hn => ?_⟩
    rcases List.mem_append.1 hn with hn | hn
    · have hold := hms.token n hn
      omega
    · exact hother n hn

theorem Handed.append {last next next' : Nat} {ms ns : Marks} (hms : Handed group last next ms)
    (hns : Handed group next next' ns) : Handed group last next' (ms ++ ns) := by
  have hle := hms.le
  have hle' := hns.le
  refine ⟨Nat.le_trans hle hle', List.forall_mem_append.2 ⟨fun m hm => ?_, fun n hn => ?_⟩⟩
  · have := hms.token m hm
    omega
  · have := hns.token n hn
    omega

/-! ### Putting walks together -/

theorem walks_id (group : Nat) : Walks group (fun seen => seen) [] fun _ => False :=
  fun out last _ => ⟨[], last, by simp [Marks.observations], rfl,
    ⟨Nat.le_refl _, List.forall_mem_nil _⟩, fun _ => False.elim⟩

theorem Walks.imp (h : Walks group f ws us) (hus : ∀ u, us' u → us u) : Walks group f ws us' := by
  intro out last hgroup
  obtain ⟨ms, next, hseen, hws, hms, hu⟩ := h out last hgroup
  exact ⟨ms, next, hseen, hws, hms, fun u h => hu u (hus u h)⟩

/-- One walk after the other. -/
theorem Walks.append (hf : Walks group f ws us) (hg : Walks group g ws' us') :
    Walks group (fun seen => g (f seen)) (ws ++ ws') fun u => us u ∨ us' u := by
  intro out last hgroup
  obtain ⟨ms, next, hseen, hws, hms, hus⟩ := hf out last hgroup
  obtain ⟨ns, next', hseen', hws', hns, hus'⟩ := hg (out ++ ms.observations) next
    (Nat.le_trans hgroup hms.le)
  refine ⟨ms ++ ns, next', ?_, ?_, hms.append hns, fun u hu => ?_⟩
  · show g (f (out, last)) = _
    rw [hseen, hseen', Marks.observations_append, List.append_assoc]
  · rw [List.map_append, hws, hws']
  · rcases hu with hu | hu
    · exact (hus u hu).append_right hms hgroup hns
    · exact (hus' u hu).append_left hms hgroup

/-- A walk through the instances of an element. -/
theorem Walks.foldl {f : Observed → Nat → Observed} {ws : Nat → List Instance}
    {us : Nat → List Instance → Prop} (h : ∀ i, Walks group (f · i) (ws i) (us i))
    (is : List Nat) : Walks group (is.foldl f) (is.flatMap ws) fun u => ∃ i ∈ is, us i u := by
  induction is with
  | nil => exact (walks_id group).imp fun u hu => by simp at hu
  | cons i is ih =>
    rw [List.flatMap_cons]
    refine ((h i).append ih).imp fun u hu => ?_
    obtain ⟨j, hj, hu⟩ := hu
    rcases List.mem_cons.1 hj with rfl | hj
    · exact .inl hu
    · exact .inr ⟨j, hj, hu⟩

/-- A walk under a token of its own secludes all of its words. -/
theorem Walks.fresh {f : Nat → Observed → Observed} (h : ∀ group, Walks group (f group) ws us)
    (group : Nat) :
    Walks group (fun seen => f (seen.2 + 1) (seen.1, seen.2 + 1)) ws fun u => u = ws ∨ us u := by
  intro out last hgroup
  obtain ⟨ms, next, hseen, hws, hms, hus⟩ := h (last + 1) out (last + 1) (Nat.le_refl _)
  have hle := hms.le
  have htoken : ∀ m ∈ ms, last < m.2 ∧ m.2 ≤ next := by
    intro m hm
    have := hms.token m hm
    omega
  refine ⟨ms, next, hseen, hws, ⟨by omega, fun m hm => .inr (htoken m hm)⟩, fun u hu => ?_⟩
  rcases hu with rfl | hu
  · exact ⟨ms, [], by rw [List.append_nil], hws, fun m hm =>
      ⟨(htoken m hm).1, List.forall_mem_nil _⟩⟩
  · obtain ⟨own, others, hperm, hu, hown⟩ := hus u hu
    exact ⟨own, others, hperm, hu, fun m hm => ⟨by have := (hown m hm).1; omega, (hown m hm).2⟩⟩

/-- The walk that observes one word. -/
theorem walks_word (w : Instance) (group : Nat) :
    Walks group (fun seen => (seen.1 ++ [w.observed group], seen.2)) [w] fun _ => False := by
  refine fun out last _ => ⟨[(w, group)], last, rfl, rfl, ⟨Nat.le_refl _, fun m hm => ?_⟩,
    fun _ => False.elim⟩
  cases List.mem_singleton.1 hm
  exact .inl rfl

/-! ### The walk over a tree -/

theorem walks_observeAll_of {es : List Element}
    (h : ∀ e ∈ es, ∀ base group,
      Walks group (observe base group · e) (e.instances base) (IsIsolatedUnit base [e])) :
    ∀ base group,
      Walks group (observeAll base group · es) (instancesAll base es) (IsIsolatedUnit base es) := by
  induction es with
  | nil =>
    intro base group
    exact (walks_id group).imp fun u hu => not_isIsolatedUnit_nil hu
  | cons e es ih =>
    intro base group
    obtain ⟨he, hes⟩ := List.forall_mem_cons.1 h
    have hrest := ih hes base
    by_cases hisolated : e.flags.isolated
    · have hwalk := (he base group).append
        (Walks.fresh (f := fun group seen => observeAll base group seen es) hrest group)
      simp only [observeAll, if_pos hisolated]
      exact hwalk.imp fun u hu => hu.cons.imp_right .inr
    · have hwalk := (he base group).append (hrest group)
      simp only [observeAll, if_neg hisolated]
      exact hwalk.imp fun u hu => hu.cons

/-- Observing an element secludes every instance of an isolated element in it. -/
theorem walks_observe (e : Element) : ∀ base group,
    Walks group (observe base group · e) (e.instances base) (IsIsolatedUnit base [e]) := by
  induction e using tree_induction with
  | register r =>
    intro base group
    let word (i : Nat) : Instance := ⟨base + r.offset + i * Dim.strideOf r.dim, r, i⟩
    have hwords : (register r).instances base =
        (List.range (Dim.countOf r.dim)).flatMap fun i => [word i] := List.map_eq_flatMap
    simp only [observe, strides_eq_map, List.foldl_map]
    rw [hwords]
    by_cases hisolated : r.flags.isolated
    · simp only [if_pos hisolated]
      have hwalk := Walks.foldl (fun i => Walks.fresh (walks_word (word i)) group)
        (List.range (Dim.countOf r.dim))
      refine hwalk.imp fun u hu => ?_
      obtain ⟨-, i, hi, rfl⟩ := hu.of_register
      exact ⟨i, List.mem_range.2 hi, .inl rfl⟩
    · simp only [if_neg hisolated]
      have hwalk := Walks.foldl (fun i => walks_word (word i) group)
        (List.range (Dim.countOf r.dim))
      exact hwalk.imp fun u hu => absurd hu.of_register.1 hisolated
  | cluster c es ih =>
    intro base group
    have hinner := walks_observeAll_of ih
    simp only [observe, strides_eq_map, List.foldl_map]
    rw [instances]
    by_cases hisolated : c.flags.isolated
    · simp only [if_pos hisolated]
      have hwalk := Walks.foldl (fun i => Walks.fresh
        (hinner (base + c.offset + i * Dim.strideOf c.dim)) group)
        (List.range (Dim.countOf c.dim))
      refine hwalk.imp fun u hu => ?_
      obtain ⟨i, hi, ⟨-, hu⟩ | hu⟩ := hu.of_cluster
      · exact ⟨i, List.mem_range.2 hi, .inl hu⟩
      · exact ⟨i, List.mem_range.2 hi, .inr hu⟩
    · simp only [if_neg hisolated]
      have hwalk := Walks.foldl (fun i =>
        hinner (base + c.offset + i * Dim.strideOf c.dim) group) (List.range (Dim.countOf c.dim))
      refine hwalk.imp fun u hu => ?_
      obtain ⟨i, hi, ⟨hflag, -⟩ | hu⟩ := hu.of_cluster
      · exact absurd hflag hisolated
      · exact ⟨i, List.mem_range.2 hi, hu⟩

/-- The observations of a tree, word by word, with every instance of an isolated element
secluded. -/
theorem exists_marks (es : List Element) :
    ∃ ms : Marks, (observations es).Perm ms.observations ∧ ms.map Prod.fst = instancesAll 0 es ∧
      ∀ u, IsIsolatedUnit 0 es u → Secluded 0 ms u := by
  obtain ⟨ms, next, hseen, hws, -, hus⟩ :=
    walks_observeAll_of (fun e (_ : e ∈ es) => walks_observe e) 0 0 [] 0 (Nat.le_refl 0)
  refine ⟨ms, ?_, hws, hus⟩
  have hobserved : (observeAll 0 0 ([], 0) es).1 = ms.observations := congrArg Prod.fst hseen
  rw [observations, hobserved]
  exact List.mergeSort_perm _ _

end Peripheral

end RegisterMap
