import RegisterMap.Proofs.Sorting
import RegisterMap.Proofs.Success
import RegisterMap.Reduction.Clusters

/-!
# What grouping takes

One rule walks over the elements of a level once. Every element stays, or is deleted because it
repeats the first instance of a member of the cluster that was found (`Rule.Outcome`). The cluster
only grows on the way, and its members are first instances (`Rule.IsSound`). `Rule.group_spec` says
this of the whole walk, `Seed.gather_spec` of the walk within that looks for the instances of one
member.
-/

namespace RegisterMap.Clusters

open Element

/-! ## Instances -/

theorem Rule.register?_eq_some {rule : Rule} {e : Element} {r : Register} {part : Part} :
    rule.register? e = some (r, part) ↔
      e = .register r ∧ r.deleted = false ∧ rule.part? r.name = some part := by
  cases e with
  | cluster c es => simp [register?]
  | register s =>
    rw [register?]
    by_cases hs : s.deleted = true
    · rw [if_pos hs]
      constructor
      · intro h
        cases h
      · rintro ⟨h, hr, -⟩
        cases h
        rw [hs] at hr
        cases hr
    · rw [if_neg hs, Option.map_eq_some_iff]
      constructor
      · rintro ⟨part', hpart, h⟩
        cases h
        exact ⟨rfl, by simpa using hs, hpart⟩
      · rintro ⟨h, -, hpart⟩
        cases h
        exact ⟨part, hpart, rfl⟩

/-- Both names are those of the same member of the same array. -/
def Rule.SameMember (rule : Rule) (r s : Register) : Prop :=
  ∃ a b, rule.part? r.name = some a ∧ rule.part? s.name = some b ∧ a.array = b.array ∧
    a.member = b.member

variable {s : Seed} {i j : Instances} {e : Element}

theorem Seed.instance?_eq_some {r : Register} {distance : Nat} {index : String}
    (h : s.instance? e = some (r, distance, index)) :
    ∃ part, e = .register r ∧ r.deleted = false ∧ s.rule.part? r.name = some part ∧
      part.array = s.part.array ∧ part.member = s.part.member ∧ part.index = index ∧
      distance = r.offset - s.register.offset ∧ distance ≠ 0 := by
  unfold Seed.instance? at h
  cases hr : s.rule.register? e with
  | none => simp [hr] at h
  | some rp =>
    obtain ⟨v, part⟩ := rp
    simp only [hr] at h
    split at h
    · rename_i hsame
      cases h
      simp only [Bool.and_eq_true, beq_iff_eq, bne_iff_ne] at hsame
      obtain ⟨rfl, hdeleted, hpart⟩ := Rule.register?_eq_some.1 hr
      exact ⟨part, rfl, hdeleted, hpart, hsame.1.1, hsame.1.2, rfl, rfl, hsame.2⟩
    · cases h

/-- What gathering makes of an element: itself, or deleted when it is one of the instances. -/
inductive Seed.Gathered (s : Seed) (i : Instances) : Element → Element → Prop
  | kept (e : Element) : Gathered s i e e
  | taken {r : Register} {part : Part} {k : Nat} (intact : r.deleted = false)
      (part_eq : s.rule.part? r.name = some part) (array_eq : part.array = s.part.array)
      (member_eq : part.member = s.part.member)
      (distance_eq : r.offset - s.register.offset = k * i.stride)
      (index_eq : i.indexes[k]? = some part.index) :
      Gathered s i (.register r) (Element.register r).delete

theorem Seed.Gathered.offset_eq {e f : Element} (h : s.Gathered i e f) : f.offset = e.offset := by
  cases h <;> rfl

theorem Seed.map_offset_of_gathered {es fs : List Element}
    (h : List.Forall₂ (s.Gathered i) es fs) : fs.map offset = es.map offset := by
  induction h with
  | nil => rfl
  | cons he _ ih => rw [List.map_cons, List.map_cons, he.offset_eq, ih]

/-- As long as there is no stride there is one instance only. -/
def Instances.IsBegun (i : Instances) : Prop := i.stride = 0 → i.indexes.length = 1

/-- The instances `j` begin with the instances `i`, at the same stride. -/
structure Instances.Extends (i j : Instances) : Prop where
  indexes_prefix : i.indexes <+: j.indexes
  stride_eq : i.stride ≠ 0 → j.stride = i.stride

theorem Instances.Extends.trans {k : Instances} (h : i.Extends j) (h' : j.Extends k) :
    i.Extends k where
  indexes_prefix := h.indexes_prefix.trans h'.indexes_prefix
  stride_eq hi := by
    have hj := h.stride_eq hi
    rw [h'.stride_eq (by rw [hj]; exact hi), hj]

theorem Instances.extends_push (i : Instances) (distance : Nat) (index : String) :
    i.Extends (i.push distance index) where
  indexes_prefix := List.prefix_append _ _
  stride_eq hne := if_neg hne

/-- One more instance lies as many strides behind the first as there are others. -/
theorem Instances.distance_eq_of_expects {distance : Nat} (hbegun : i.IsBegun)
    (hi : i.expects distance = true) (index : String) :
    distance = i.indexes.length * (i.push distance index).stride := by
  unfold expects at hi
  by_cases hstride : i.stride = 0
  · rw [push, hbegun hstride]
    simp [hstride]
  · rw [push]
    simpa [hstride] using hi

/-- Gathering extends the instances and takes nothing but what it puts there. -/
theorem Seed.gather_spec (s : Seed) {i : Instances} (hbegun : i.IsBegun) (es : List Element) :
    i.Extends (s.gather i es).1 ∧
      List.Forall₂ (s.Gathered (s.gather i es).1) es (s.gather i es).2 := by
  induction es generalizing i with
  | nil => exact ⟨⟨List.prefix_rfl, fun _ => rfl⟩, .nil⟩
  | cons e es ih =>
    unfold Seed.gather
    cases hinstance : s.instance? e with
    | none =>
      obtain ⟨hextends, hgathered⟩ := ih hbegun
      exact ⟨hextends, .cons (.kept e) hgathered⟩
    | some found =>
      obtain ⟨r, distance, index⟩ := found
      obtain ⟨part, rfl, hintact, hpart, harray, hmember, rfl, hdistance, hne⟩ :=
        Seed.instance?_eq_some hinstance
      by_cases hexpected : i.expects distance = true
      · simp only [if_pos hexpected]
        have hplace := Instances.distance_eq_of_expects hbegun hexpected part.index
        have hpushed : (i.push distance part.index).stride ≠ 0 := fun hzero => by
          rw [hzero, Nat.mul_zero] at hplace
          exact hne hplace
        obtain ⟨hextends, hgathered⟩ := ih (i := i.push distance part.index)
          fun hzero => absurd hzero hpushed
        refine ⟨(i.extends_push distance part.index).trans hextends, .cons ?_ hgathered⟩
        refine .taken hintact hpart harray hmember (k := i.indexes.length) ?_ ?_
        · rw [hextends.stride_eq hpushed, ← hplace, hdistance]
        · obtain ⟨more, hmore⟩ := hextends.indexes_prefix
          rw [← hmore]
          simp [Instances.push]
      · simp only [if_neg hexpected]
        obtain ⟨hextends, hgathered⟩ := ih (i := i.warn s r distance) hbegun
        exact ⟨⟨hextends.indexes_prefix, hextends.stride_eq⟩, .cons (.kept _) hgathered⟩

/-! ## The cluster -/

/-- The register lies where the array of the first instance `f` has an element of the member, and
is named so. -/
def Rule.Repeats (rule : Rule) (d : Dim) (member : String) (f r : Register) : Prop :=
  ∃ a b k, rule.part? f.name = some a ∧ rule.part? r.name = some b ∧ a.array = b.array ∧
    a.member = member ∧ b.member = member ∧ r.offset = f.offset + k * d.stride ∧
    d.indexes[k]? = some b.index

theorem Rule.Repeats.sameMember {rule : Rule} {d : Dim} {member : String} {f r : Register}
    (h : rule.Repeats d member f r) : rule.SameMember f r := by
  obtain ⟨a, b, -, ha, hb, harray, hmember, hmember', -⟩ := h
  exact ⟨a, b, ha, hb, harray, hmember.trans hmember'.symm⟩

/-- The first instance as a member, before the cluster has its place. -/
def memberOf (f : Register) (name : String) : Element := .register { f with name, deleted := false }

/-- A member of the cluster that was found stands for the register. -/
def Rule.Covers (rule : Rule) (level : List Element) (found : Found) (r : Register) : Prop :=
  ∃ c members d f member, found = some (c, members) ∧ c.dim = some d ∧
    .register f ∈ level ∧ f.deleted = false ∧ rule.Repeats d member f r ∧
    memberOf f member ∈ members

/-- What grouping makes of an element: itself, or deleted when a member stands for it. -/
inductive Rule.Outcome (rule : Rule) (level : List Element) (found : Found) :
    Element → Element → Prop
  | kept (e : Element) : Outcome rule level found e e
  | taken {r : Register} (intact : r.deleted = false) (covers : rule.Covers level found r) :
      Outcome rule level found (.register r) (Element.register r).delete

/-- The cluster that was found is an array of first instances of the level, none of which lies in
front of it. -/
def Rule.IsSound (rule : Rule) (level : List Element) (found : Found) : Prop :=
  ∀ c members, found = some (c, members) → c.dim.isSome = true ∧ c.deleted = false ∧
    ∀ m ∈ members, ∃ f part, m = memberOf f part.member ∧ .register f ∈ level ∧
      f.deleted = false ∧ rule.part? f.name = some part ∧ c.offset ≤ f.offset

/-- The cluster that was found stays, with its dimensions and members. -/
def Grows (found found' : Found) : Prop :=
  ∀ c members, found = some (c, members) →
    ∃ c' members', found' = some (c', members') ∧ c'.dim = c.dim ∧ members <+: members'

variable {rule : Rule} {level : List Element} {found found' : Found}

theorem Grows.refl (found : Found) : Grows found found :=
  fun c members h => ⟨c, members, h, rfl, List.prefix_rfl⟩

/-- The cluster with one more first instance is sound. -/
theorem Rule.isSound_addMember {c : Cluster} {members : List Element} {r : Register} {part : Part}
    {d : Dim} (hsound : rule.IsSound level found)
    (hc : found.getD (rule.begin r.offset d, []) = (c, members)) (hr : .register r ∈ level)
    (hintact : r.deleted = false) (hpart : rule.part? r.name = some part) :
    rule.IsSound level (some (addMember c members r part.member)) := by
  have hbegun : c.dim.isSome = true ∧ c.deleted = false ∧ ∀ m ∈ members, ∃ f part,
      m = memberOf f part.member ∧ .register f ∈ level ∧ f.deleted = false ∧
        rule.part? f.name = some part ∧ c.offset ≤ f.offset := by
    cases found with
    | none =>
      cases hc
      exact ⟨rfl, rfl, List.forall_mem_nil _⟩
    | some cm =>
      cases hc
      exact hsound c members rfl
  obtain ⟨hdim, hdeleted, hmembers⟩ := hbegun
  intro c' members' h
  cases h
  refine ⟨hdim, hdeleted, List.forall_mem_append.2 ⟨fun m hm => ?_, fun m hm => ?_⟩⟩
  · obtain ⟨f, part', hm, hf, hfdeleted, hfpart, hoffset⟩ := hmembers m hm
    exact ⟨f, part', hm, hf, hfdeleted, hfpart, Nat.le_trans (Nat.min_le_left _ _) hoffset⟩
  · cases List.mem_singleton.1 hm
    exact ⟨r, part, rfl, hr, hintact, hpart, Nat.min_le_right _ _⟩

/-- The instances that were gathered repeat the seed. -/
theorem Seed.repeats_of_gathered {r : Register} {part : Part} {k : Nat}
    {i : Instances} (hseed : s.rule.part? s.register.name = some s.part)
    (hoffset : s.register.offset ≤ r.offset) (hpart : s.rule.part? r.name = some part)
    (harray : part.array = s.part.array) (hmember : part.member = s.part.member)
    (hdistance : r.offset - s.register.offset = k * i.stride)
    (hindex : i.indexes[k]? = some part.index) :
    s.rule.Repeats ⟨i.stride, i.indexes⟩ s.part.member s.register r := by
  refine ⟨s.part, part, k, hseed, hpart, harray.symm, rfl, hmember, ?_, hindex⟩
  show r.offset = s.register.offset + k * i.stride
  omega

/-! ## The walk -/

/-- Elements that stay after the instances of a member were gathered, or were deleted then, come
out the same way when the member has joined the cluster. -/
theorem Rule.outcome_of_gathered {i : Instances} {e e' e'' : Element} {r : Register} {part : Part}
    (hr : .register r ∈ level) (hintact : r.deleted = false)
    (hpart : rule.part? r.name = some part) {c : Cluster} {members : List Element}
    (hfound : found = some (c, members)) (hdim : c.dim = some ⟨i.stride, i.indexes⟩)
    (hmember : memberOf r part.member ∈ members) (hoffset : r.offset ≤ e.offset) {p : String}
    (hgathered : Seed.Gathered ⟨rule, p, r, part⟩ i e e')
    (h : rule.Outcome level found e' e'') : rule.Outcome level found e e'' := by
  cases hgathered with
  | kept => exact h
  | taken hs hspart harray hsmember hdistance hindex =>
    cases h with
    | kept =>
      refine .taken hs ⟨c, members, _, r, part.member, hfound, hdim, hr, hintact, ?_, hmember⟩
      exact Seed.repeats_of_gathered (s := ⟨rule, p, r, part⟩) hpart hoffset hspart harray
        hsmember hdistance hindex
    | taken hdeleted => cases hdeleted

/-- **Grouping.** Every element of a level in order stays or is covered by a member of the cluster
that is found in the end, which is made of first instances of the level. -/
theorem Rule.group_spec (peripheral : String) {es : List Element}
    (hlevel : ∀ f, f.deleted = false → .register f ∈ es → .register f ∈ level)
    (hes : es.Pairwise fun a b => a.offset ≤ b.offset) (hsound : rule.IsSound level found) :
    rule.IsSound level (rule.group peripheral found es).found ∧
      Grows found (rule.group peripheral found es).found ∧
      List.Forall₂ (rule.Outcome level (rule.group peripheral found es).found) es
        (rule.group peripheral found es).elements := by
  fun_induction Rule.group rule peripheral found es with
  | case1 found => exact ⟨hsound, .refl found, .nil⟩
  | case2 found e es hnone g ih =>
    obtain ⟨hsound', hgrows, hout⟩ :=
      ih (fun f hf hmem => hlevel f hf (List.mem_cons_of_mem _ hmem)) hes.of_cons hsound
    exact ⟨hsound', hgrows, .cons (.kept e) hout⟩
  | case3 found e es r part hr seed gathered instances hlone g ih =>
    obtain ⟨hsound', hgrows, hout⟩ :=
      ih (fun f hf hmem => hlevel f hf (List.mem_cons_of_mem _ hmem)) hes.of_cons hsound
    exact ⟨hsound', hgrows, .cons (.kept e) hout⟩
  | case4 found e es r part hr seed gathered instances hmany dim c members hc hdim g ih =>
    obtain ⟨rfl, hintact, hpart⟩ := Rule.register?_eq_some.1 hr
    obtain ⟨hextends, hgathered⟩ := seed.gather_spec (i := { indexes := [part.index] })
      (fun _ => rfl) es
    have hlevel' : ∀ f, f.deleted = false → .register f ∈ gathered.2 → .register f ∈ level := by
      intro f hf hmem
      obtain ⟨e, he, hef⟩ := exists_mem_of_forall₂ hgathered hmem
      cases hef with
      | kept => exact hlevel f hf (List.mem_cons_of_mem _ he)
      | taken => cases hf
    have hsorted : gathered.2.Pairwise fun a b => a.offset ≤ b.offset := by
      have htail := List.pairwise_map.2 hes.of_cons
      rw [← Seed.map_offset_of_gathered hgathered] at htail
      exact List.pairwise_map.1 htail
    have hmem := hlevel r hintact List.mem_cons_self
    obtain ⟨hsound', hgrows, hout⟩ := ih hlevel' hsorted
      (Rule.isSound_addMember hsound hc hmem hintact hpart)
    obtain ⟨c', members', hfound, hdim', hprefix⟩ := hgrows _ _ rfl
    have hdim' : c'.dim = some dim := hdim'.trans hdim
    have hmember : memberOf r part.member ∈ members' :=
      hprefix.subset (List.mem_append_right _ (List.mem_singleton_self _))
    have hfirst : instances.indexes[0]? = some part.index := by
      obtain ⟨more, hmore⟩ := hextends.indexes_prefix
      show gathered.1.indexes[0]? = some part.index
      rw [← hmore]
      rfl
    refine ⟨hsound', ?_, .cons (.taken hintact ?_) (forall₂_trans ?_ hgathered hout)⟩
    · intro c₀ members₀ h₀
      rw [h₀] at hc
      cases hc
      exact ⟨c', members', hfound, hdim'.trans hdim.symm,
        (List.prefix_append _ _).trans hprefix⟩
    · refine ⟨c', members', dim, r, part.member, hfound, hdim', hmem, hintact, ?_, hmember⟩
      exact ⟨part, part, 0, hpart, hpart, rfl, rfl, rfl, by simp, hfirst⟩
    · intro e he e' e'' hee' he'
      exact Rule.outcome_of_gathered hmem hintact hpart hfound hdim' hmember
        ((List.pairwise_cons.1 hes).1 e he) hee' he'
  | case5 found e es r part hr seed gathered instances hmany dim c members hc hdim g ih =>
    have hfound : found = some (c, members) := by
      cases found with
      | none =>
        cases hc
        exact absurd rfl hdim
      | some cm => exact congrArg some hc
    subst hfound
    obtain ⟨hsound', hgrows, hout⟩ :=
      ih (fun f hf hmem => hlevel f hf (List.mem_cons_of_mem _ hmem)) hes.of_cons hsound
    exact ⟨hsound', hgrows, .cons (.kept e) hout⟩

end RegisterMap.Clusters
