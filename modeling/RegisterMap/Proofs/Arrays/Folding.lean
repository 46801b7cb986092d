import RegisterMap.Proofs.Instance
import RegisterMap.Reduction.Arrays

/-!
# Folding keeps the words

What is told of the words of a peripheral, with every array written out, stays the same when the
registers are folded, if an array tells of each of its elements what was told of the register that
it stands for (`Site.Preserves`). A step takes elements behind a register into its array
(`keys_gather`); a level is folded by such steps (`keys_foldLevel`), a tree level by level
(`keys_fold`).
-/

namespace RegisterMap.Arrays

open Element

/-! ## Words that are not deleted -/

section Keys

variable {α : Type} (key : Instance → α)

/-- What is told of the words of elements, without the deleted ones. -/
def keys (base : Nat) (es : List Element) : List α := (instancesAll base (compactAll es)).map key

theorem keys_append (base : Nat) (es fs : List Element) :
    keys key base (es ++ fs) = keys key base es ++ keys key base fs := by
  simp only [keys, compactAll_eq_map, List.filter_append, List.map_append, instancesAll_append]

theorem keys_cons (base : Nat) (e : Element) (es : List Element) :
    keys key base (e :: es) = keys key base [e] ++ keys key base es :=
  keys_append key base [e] es

theorem keys_perm (base : Nat) {es fs : List Element} (h : es.Perm fs) :
    (keys key base es).Perm (keys key base fs) := by
  simp only [keys, compactAll_eq_map]
  exact (instancesAll_perm base ((h.filter _).map _)).map _

/-- Elements that are deleted already may be taken out. -/
theorem keys_filter (base : Nat) (es : List Element) :
    keys key base (es.filter (!·.deleted)) = keys key base es := by
  simp only [keys, compactAll_eq_map, List.filter_filter, Bool.and_self]

theorem keys_deleted {e : Element} (h : e.deleted = true) (base : Nat) :
    keys key base [e] = [] := by
  simp [keys, compactAll, h, instancesAll]

theorem keys_register {r : Register} (h : r.deleted = false) (base : Nat) :
    keys key base [.register r] = (List.range (Dim.countOf r.dim)).map fun i =>
      key ⟨base + r.offset + i * Dim.strideOf r.dim, r, i⟩ := by
  have hdeleted : (Element.register r).deleted = false := h
  simp [keys, compactAll, hdeleted, compact, instancesAll, instances]

theorem keys_cluster {c : Cluster} (h : c.deleted = false) (base : Nat) (es : List Element) :
    keys key base [.cluster c es] = (List.range (Dim.countOf c.dim)).flatMap fun i =>
      keys key (base + c.offset + i * Dim.strideOf c.dim) es := by
  have hdeleted : (Element.cluster c es).deleted = false := h
  simp [keys, compactAll, hdeleted, compact, instancesAll, instances, List.map_flatMap]

/-- A cluster tells what its elements tell. -/
theorem keys_cluster_perm (c : Cluster) {es fs : List Element}
    (h : ∀ base, (keys key base es).Perm (keys key base fs)) (base : Nat) :
    (keys key base [.cluster c es]).Perm (keys key base [.cluster c fs]) := by
  cases hc : c.deleted with
  | true =>
    rw [keys_deleted key (e := .cluster c es) hc, keys_deleted key (e := .cluster c fs) hc]
  | false =>
    rw [keys_cluster key hc, keys_cluster key hc]
    exact List.Perm.flatMap_left _ fun i _ => h _

/-! ## Arrays -/

/-- An array tells of its elements what was told of the registers that they were. -/
structure Site.Preserves (site : Site) : Prop where
  first : ∀ {r s}, site.seed? r = some s → Placeholder.isIn r.name = false →
    ∀ address is, key ⟨address, s.toArray (s.index :: is), 0⟩ = key ⟨address, r, 0⟩
  next : ∀ {r s}, site.seed? r = some s → Placeholder.isIn r.name = false →
    ∀ {n v i}, s.takes? n (.register v) = some i →
      ∀ address is, is[n]? = some i → key ⟨address, s.toArray is, n⟩ = key ⟨address, v, 0⟩

variable {key}

theorem Site.seed?_eq_some {site : Site} {r : Register} {s : Seed} (h : site.seed? r = some s) :
    isSingle r = true ∧ s.register = r ∧ s.comparison = site.comparison ∧
      s.rule = ruleOf site.peripheral ∧ s.rule.split? r.name = some (s.array, s.index) := by
  unfold Site.seed? at h
  split at h
  · rename_i hsingle
    obtain ⟨⟨array, index⟩, hsplit, rfl⟩ := Option.map_eq_some_iff.1 h
    exact ⟨(Bool.and_eq_true _ _ ▸ hsingle).1, rfl, rfl, rfl, hsplit⟩
  · cases h

theorem Seed.takes?_eq_some {s : Seed} {n : Nat} {e : Element} {i : String}
    (h : s.takes? n e = some i) : ∃ v, e = .register v ∧ isSingle v = true ∧
      s.rule.split? v.name = some (s.array, i) ∧
      v.offset = s.register.offset + n * s.register.elementSize ∧
      s.register.equivalent v (some s.index) (some i) s.comparison = true := by
  unfold Seed.takes? at h
  cases e with
  | cluster c es => cases h
  | register v =>
    simp only at h
    split at h
    · rename_i hsingle
      split at h
      · rename_i array index hsplit
        split at h
        · rename_i hcond
          cases h
          simp only [Bool.and_eq_true, beq_iff_eq] at hcond
          obtain ⟨⟨rfl, hoffset⟩, hequivalent⟩ := hcond
          exact ⟨v, rfl, hsingle, hsplit, hoffset, hequivalent⟩
        · cases h
      · cases h
    · cases h

theorem isSingle_iff {r : Register} :
    isSingle r = true ↔ r.deleted = false ∧ r.derivedFrom = none ∧ r.dim = none := by
  simp [isSingle, and_assoc]

/-- A register that may be part of an array tells of one word. -/
theorem keys_single {r : Register} (h : isSingle r = true) (base : Nat) :
    keys key base [.register r] = [key ⟨base + r.offset, r, 0⟩] := by
  obtain ⟨hdeleted, -, hdim⟩ := isSingle_iff.1 h
  rw [keys_register key hdeleted, hdim]
  simp [Dim.countOf]

/-! ## Gathering an array -/

theorem Seed.gather_prefix (s : Seed) (is : List String) (cs : List Candidate) :
    is <+: (s.gather is cs).1 := by
  fun_induction s.gather is cs with
  | case1 is => exact List.prefix_rfl
  | case2 is c cs i _ js ds hgather ih =>
    rw [hgather] at ih
    exact (List.prefix_append is [i]).trans ih
  | case3 is c cs _ js ds hgather ih =>
    rw [hgather] at ih
    exact ih

variable (key) in
/-- What an array tells of its elements from a place on. -/
def Seed.keysFrom (s : Seed) (base : Nat) (is : List String) (start : Nat) : List α :=
  (List.range' start (is.length - start)).map fun n =>
    key ⟨base + s.register.offset + n * s.register.elementSize, s.toArray is, n⟩

theorem Seed.keysFrom_length (s : Seed) (base : Nat) (is : List String) :
    s.keysFrom key base is is.length = [] := by
  rw [keysFrom, Nat.sub_self]
  rfl

theorem Seed.keysFrom_eq_cons (s : Seed) (base : Nat) {is : List String} {n : Nat}
    (h : n < is.length) : s.keysFrom key base is n =
      key ⟨base + s.register.offset + n * s.register.elementSize, s.toArray is, n⟩ ::
        s.keysFrom key base is (n + 1) := by
  have hlength : is.length - n = (is.length - (n + 1)) + 1 := by omega
  rw [keysFrom, hlength, List.range'_succ, List.map_cons]
  rfl

theorem Seed.keys_toArray {s : Seed} (h : s.register.deleted = false) (base : Nat)
    (is : List String) : keys key base [.register (s.toArray is)] = s.keysFrom key base is 0 := by
  rw [keys_register key (r := s.toArray is) h, List.range_eq_range']
  rfl

theorem element_delete (c : Candidate) : c.delete.element = c.element.delete := rfl

/-- The elements that an array takes are told of by it, each in its place, and the others stay. -/
theorem keys_gather {site : Site} (hkey : site.Preserves key) {r : Register} {s : Seed}
    (hs : site.seed? r = some s) (hr : Placeholder.isIn r.name = false) (is : List String)
    (cs : List Candidate) (base : Nat) :
    (s.keysFrom key base (s.gather is cs).1 is.length ++
      keys key base ((s.gather is cs).2.map Candidate.element)).Perm
      (keys key base (cs.map Candidate.element)) := by
  induction cs generalizing is with
  | nil =>
    rw [Seed.gather, Seed.keysFrom_length, List.nil_append]
  | cons c cs ih =>
    rw [Seed.gather, List.map_cons, keys_cons key base c.element]
    split
    · rename_i i htakes
      have ih := ih (is ++ [i])
      rw [List.length_append, List.length_singleton] at ih
      obtain ⟨v, hv, hsingle, -, hoffset, -⟩ := Seed.takes?_eq_some htakes
      obtain ⟨js, hjs⟩ := s.gather_prefix (is ++ [i]) cs
      simp only [List.map_cons, element_delete]
      generalize s.gather (is ++ [i]) cs = g at ih hjs
      have hplace : g.1[is.length]? = some i := by
        rw [← hjs]
        simp
      have hhere := hkey.next hs hr (hv ▸ htakes) (base + v.offset) g.1 hplace
      have haddress : base + v.offset =
          base + s.register.offset + is.length * s.register.elementSize := by omega
      rw [Seed.keysFrom_eq_cons s base (List.getElem?_eq_some_iff.1 hplace).1, ← haddress, hhere,
        keys_cons key base c.element.delete, keys_deleted key (deleted_delete _), hv,
        keys_single hsingle]
      exact ih.cons _
    · have ih := ih is
      simp only [List.map_cons]
      rw [keys_cons key base c.element]
      exact (List.perm_append_comm_assoc _ _ _).trans (ih.append_left _)

/-! ## Folding a level -/

variable (key) in
/-- What folding makes of a cluster tells what the cluster told. -/
def Candidate.Keeps (c : Candidate) : Prop :=
  ∀ d es, c.element = .cluster d es → c.failure = none →
    ∃ fs, c.folded = .cluster d fs ∧ ∀ base, (keys key base fs).Perm (keys key base es)

/-- Taking elements into an array leaves what folding makes of clusters. -/
theorem keeps_gather {s : Seed} {is : List String} {cs : List Candidate}
    (h : ∀ c ∈ cs, c.Keeps key) : ∀ c ∈ (s.gather is cs).2, c.Keeps key := by
  induction cs generalizing is with
  | nil => exact h
  | cons c cs ih =>
    obtain ⟨hc, hcs⟩ := List.forall_mem_cons.1 h
    rw [Seed.gather]
    split
    · rename_i i htakes
      obtain ⟨v, hv, -⟩ := Seed.takes?_eq_some htakes
      refine List.forall_mem_cons.2 ⟨fun d es hd => ?_, ih hcs⟩
      rw [element_delete, hv] at hd
      cases hd
    · exact List.forall_mem_cons.2 ⟨hc, ih hcs⟩

/-- A register that begins an array is followed by its elements, one that does not stays alone. -/
theorem keys_seed {site : Site} (hkey : site.Preserves key) {r : Register} {s : Seed}
    (hs : site.seed? r = some s) (hr : Placeholder.isIn r.name = false) (cs : List Candidate)
    (base : Nat) :
    (keys key base [.register (if (s.gather [s.index] cs).1.length = 1 then r
        else s.toArray (s.gather [s.index] cs).1)] ++
      keys key base ((s.gather [s.index] cs).2.map Candidate.element)).Perm
      (keys key base [.register r] ++ keys key base (cs.map Candidate.element)) := by
  have hgather := keys_gather hkey hs hr [s.index] cs base
  obtain ⟨js, hjs⟩ := s.gather_prefix [s.index] cs
  obtain ⟨hsingle, hregister, -⟩ := Site.seed?_eq_some hs
  generalize s.gather [s.index] cs = g at hgather hjs ⊢
  rw [List.length_singleton] at hgather
  split
  · rename_i hone
    rw [← hone, Seed.keysFrom_length] at hgather
    exact hgather.append_left _
  · have hdeleted : s.register.deleted = false := hregister ▸ (isSingle_iff.1 hsingle).1
    have hfirst := hkey.first hs hr (base + r.offset) js
    rw [← List.singleton_append, hjs] at hfirst
    have hpos : 0 < g.1.length := by
      rw [← hjs]
      exact Nat.succ_pos _
    rw [Seed.keys_toArray hdeleted, Seed.keysFrom_eq_cons s base hpos, keys_single hsingle,
      hregister, Nat.zero_mul, Nat.add_zero, hfirst]
    exact hgather.cons _

/-- A level that could be folded tells what it told before. -/
theorem keys_foldLevel {site : Site} (hkey : site.Preserves key) {cs : List Candidate}
    (hcs : ∀ c ∈ cs, c.Keeps key) (h : (site.foldLevel cs).2 = none) (base : Nat) :
    (keys key base (site.foldLevel cs).1).Perm (keys key base (cs.map Candidate.element)) := by
  fun_induction site.foldLevel cs with
  | case1 => exact .refl _
  | case2 c cs d es hc f hf => cases h
  | case3 c cs d es hc hf fs f hfold ih =>
    obtain ⟨hkeeps, hcs⟩ := List.forall_mem_cons.1 hcs
    rw [hfold] at ih
    obtain ⟨gs, hfolded, hgs⟩ := hkeeps d es hc hf
    rw [List.map_cons, keys_cons key base c.element, keys_cons key base c.folded, hc, hfolded]
    exact (keys_cluster_perm key d hgs base).append (ih hcs h)
  | case4 c cs r hc hmarked => cases h
  | case5 c cs r hc hmarked hseed es f hfold ih =>
    rw [hfold] at ih
    rw [List.map_cons, keys_cons key base c.element, keys_cons key base (.register r), hc]
    exact (ih (List.forall_mem_cons.1 hcs).2 h).append_left _
  | case6 c cs r hc hmarked s hseed gathered here es f hfold ih =>
    rw [hfold] at ih
    have hr : Placeholder.isIn r.name = false := by
      simpa [(Site.seed?_eq_some hseed).1] using hmarked
    rw [List.map_cons, keys_cons key base c.element, keys_cons key base (.register here), hc]
    exact ((ih (keeps_gather (List.forall_mem_cons.1 hcs).2) h).append_left _).trans
      (keys_seed hkey hseed hr cs base)

/-! ## Folding a tree -/

theorem Site.candidates_eq_map (site : Site) (es : List Element) :
    site.candidates es = es.map fun e => ⟨e, (site.foldInside e).1, (site.foldInside e).2⟩ := by
  induction es with
  | nil => rfl
  | cons e es ih => rw [Site.candidates, ih, List.map_cons]

theorem keys_fold_of {site : Site} (hkey : site.Preserves key) {es : List Element}
    (hes : ∀ e ∈ es, Candidate.Keeps key ⟨e, (site.foldInside e).1, (site.foldInside e).2⟩)
    (h : (site.fold es).2 = none) (base : Nat) :
    (keys key base (site.fold es).1).Perm (keys key base es) := by
  unfold Site.fold at h ⊢
  have hsort := List.mergeSort_perm (site.candidates es) fun a b => a.element.precedes b.element
  generalize (site.candidates es).mergeSort _ = cs at h hsort ⊢
  have hcs : ∀ c ∈ cs, c.Keeps key := by
    intro c hc
    have hc := hsort.mem_iff.1 hc
    rw [Site.candidates_eq_map] at hc
    obtain ⟨e, he, rfl⟩ := List.mem_map.1 hc
    exact hes e he
  have helements : (site.candidates es).map Candidate.element = es := by
    rw [Site.candidates_eq_map, List.map_map]
    exact List.map_id es
  have hperm := hsort.map Candidate.element
  rw [helements] at hperm
  exact (keys_foldLevel hkey hcs h base).trans (keys_perm key base hperm)

/-- What folding makes of the inside of a cluster tells what the cluster told. -/
theorem keeps_foldInside {site : Site} (hkey : site.Preserves key) (e : Element) :
    Candidate.Keeps key ⟨e, (site.foldInside e).1, (site.foldInside e).2⟩ := by
  induction e using tree_induction with
  | register r =>
    rintro d es ⟨⟩
  | cluster c es ih =>
    rintro d fs ⟨⟩ h
    rw [Site.foldInside] at h ⊢
    refine ⟨_, rfl, fun base => ?_⟩
    have hfold : (site.fold es).2 = none := h
    show (keys key base (if (site.fold es).2.isSome then (site.fold es).1
      else (site.fold es).1.filter (!·.deleted))).Perm _
    rw [hfold, Option.isSome_none, if_neg Bool.false_ne_true, keys_filter]
    exact keys_fold_of hkey ih hfold base

/-- A tree that could be folded tells what it told before. -/
theorem keys_fold {site : Site} (hkey : site.Preserves key) {es : List Element}
    (h : (site.fold es).2 = none) (base : Nat) :
    (keys key base (site.fold es).1).Perm (keys key base es) :=
  keys_fold_of hkey (fun e _ => keeps_foldInside hkey e) h base

end Keys

end RegisterMap.Arrays
