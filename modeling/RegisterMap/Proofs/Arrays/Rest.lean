import RegisterMap.Proofs.Arrays.Folding
import RegisterMap.Proofs.Sorting

/-!
# Arrays at rest

Where folding has come to rest (`Arrays.Site.Rests`) there is nothing to fold
(`Peripheral.foldArrays_of_rests`), and folding leaves a level at rest, at every depth
(`Peripheral.rests_foldArrays`), so that a second folding changes nothing. Sorting behind the
folding moves arrays only: the registers that stayed single keep their order, in which none of them
continues another.
-/

namespace RegisterMap.Arrays

open Element

/-! ## Elements that stay single -/

/-- The element is a register that may be part of an array. -/
def isLone : Element → Bool
  | .register r => isSingle r
  | .cluster _ _ => false

theorem exists_of_isLone {e : Element} (h : isLone e = true) :
    ∃ r, e = .register r ∧ isSingle r = true := by
  cases e with
  | register r => exact ⟨r, rfl, h⟩
  | cluster c es => cases h

/-- The second element does not continue an array that begins with the first. -/
def Site.Apart (site : Site) (a b : Element) : Prop :=
  ∀ r s, a = .register r → site.seed? r = some s → s.takes? 1 b = none

theorem Seed.takes?_eq_none {s : Seed} {n : Nat} {e : Element} (h : isLone e = false) :
    s.takes? n e = none := by
  cases htakes : s.takes? n e with
  | none => rfl
  | some i =>
    obtain ⟨v, rfl, hsingle, -⟩ := Seed.takes?_eq_some htakes
    rw [isLone, hsingle] at h
    cases h

/-- Only two single registers may be parts of one array. -/
theorem Site.apart_of {site : Site} {a b : Element}
    (h : isLone a = true → isLone b = true → site.Apart a b) : site.Apart a b := by
  intro r s hr hs
  subst hr
  cases hb : isLone b with
  | true => exact h (Site.seed?_eq_some hs).1 hb r s rfl hs
  | false => exact Seed.takes?_eq_none hb

/-! ## Levels at rest -/

/-- In the level there is nothing to fold: it is in order, no register continues another, none has
an index already, and the same holds inside of clusters. -/
structure Site.Rests (site : Site) (es : List Element) : Prop where
  sorted : sortAll es = es
  intact : isIntactAll es = true
  apart : es.Pairwise site.Apart
  unmarked : ∀ r, .register r ∈ es → isSingle r = true → Placeholder.isIn r.name = false
  inside : ∀ e ∈ es, site.foldInside e = (e, none)

theorem Seed.gather_of_takes?_none {s : Seed} {is : List String} {cs : List Candidate}
    (h : ∀ c ∈ cs, s.takes? is.length c.element = none) : s.gather is cs = (is, cs) := by
  induction cs with
  | nil => rfl
  | cons c cs ih =>
    obtain ⟨hc, hcs⟩ := List.forall_mem_cons.1 h
    rw [Seed.gather, hc, ih hcs]

theorem Site.foldLevel_of_apart {site : Site} {es : List Element} (hapart : es.Pairwise site.Apart)
    (hunmarked : ∀ r, .register r ∈ es → isSingle r = true → Placeholder.isIn r.name = false) :
    site.foldLevel (es.map fun e => ⟨e, e, none⟩) = (es, none) := by
  induction es with
  | nil => rw [List.map_nil, Site.foldLevel]
  | cons e es ih =>
    obtain ⟨he, hes⟩ := List.pairwise_cons.1 hapart
    have ih := ih hes fun r hr => hunmarked r (List.mem_cons_of_mem _ hr)
    rw [List.map_cons, Site.foldLevel]
    cases e with
    | cluster c fs => simp only [ih]
    | register r =>
      have hr := hunmarked r List.mem_cons_self
      have hmarked : (isSingle r && Placeholder.isIn r.name) = false := by
        cases hsingle : isSingle r with
        | false => rfl
        | true => exact hr hsingle
      simp only [hmarked, Bool.false_eq_true, if_false]
      split
      · rw [ih]
      · rename_i s hs
        have hnone : ∀ c ∈ es.map fun e => (⟨e, e, none⟩ : Candidate),
            s.takes? [s.index].length c.element = none := by
          intro c hc
          obtain ⟨f, hf, rfl⟩ := List.mem_map.1 hc
          exact he f hf r s rfl hs
        rw [Seed.gather_of_takes?_none hnone]
        simp only [List.length_singleton, if_true, ih]

theorem Site.Rests.fold {site : Site} {es : List Element} (h : site.Rests es) :
    site.fold es = (es, none) := by
  have hcandidates : site.candidates es = es.map fun e => ⟨e, e, none⟩ := by
    rw [Site.candidates_eq_map]
    apply List.map_congr_left
    intro e he
    rw [h.inside e he]
  have hsort : ((es.map fun e => (⟨e, e, none⟩ : Candidate)).mergeSort
      fun a b => a.element.precedes b.element) = es.map fun e => ⟨e, e, none⟩ :=
    List.mergeSort_of_pairwise (List.pairwise_map.2 (sortAll_eq_self_iff.1 h.sorted).1)
  rw [Site.fold, hcandidates, hsort, Site.foldLevel_of_apart h.apart h.unmarked]

/-- A cluster whose elements are at rest stays as it is. -/
theorem Site.Rests.foldInside {site : Site} {es : List Element} (h : site.Rests es) (c : Cluster) :
    site.foldInside (.cluster c es) = (.cluster c es, none) := by
  have hfold := h.fold
  have hkept : es.filter (!·.deleted) = es := by
    apply List.filter_eq_self.2
    intro e he
    rw [deleted_of_isIntact (isIntactAll_iff.1 h.intact e he)]
    rfl
  unfold Site.fold at hfold
  rw [Site.foldInside, hfold]
  simp only [Option.isSome_none, Bool.false_eq_true, if_false, hkept]

/-! ## What a folded level consists of -/

/-- What folding may make of the elements of candidates: a register that stays as it is and has no
index, a cluster whose inside could be folded, or a register that is no longer single. -/
inductive Yields (cs : List Candidate) : Element → Prop
  | kept {c : Candidate} {r : Register} (mem : c ∈ cs) (element_eq : c.element = .register r)
      (unmarked : Placeholder.isIn r.name = false) : Yields cs (.register r)
  | folded {c : Candidate} {d : Cluster} {es : List Element} (mem : c ∈ cs)
      (element_eq : c.element = .cluster d es) (done : c.failure = none) : Yields cs c.folded
  | taken {r : Register} (not_single : isSingle r = false) : Yields cs (.register r)

theorem Yields.mono {cs ds : List Candidate} {e : Element} (h : Yields cs e)
    (hcs : ∀ c ∈ cs, c ∈ ds) : Yields ds e := by
  cases h with
  | kept hc he hr => exact .kept (hcs _ hc) he hr
  | folded hc he hdone => exact .folded (hcs _ hc) he hdone
  | taken hr => exact .taken hr

/-- An array takes elements that are no longer single then. -/
theorem Seed.mem_gather {s : Seed} {is : List String} {cs : List Candidate} {c : Candidate}
    (h : c ∈ (s.gather is cs).2) :
    c ∈ cs ∨ ∃ r, c.element = .register r ∧ isSingle r = false := by
  induction cs generalizing is with
  | nil => exact .inl h
  | cons d cs ih =>
    rw [Seed.gather] at h
    split at h
    · rename_i i htakes
      obtain ⟨v, hv, -⟩ := Seed.takes?_eq_some htakes
      rcases List.mem_cons.1 h with rfl | h
      · exact .inr ⟨{ v with deleted := true }, by rw [element_delete, hv]; rfl, rfl⟩
      · exact (ih h).imp_left (List.mem_cons_of_mem _)
    · rcases List.mem_cons.1 h with rfl | h
      · exact .inl List.mem_cons_self
      · exact (ih h).imp_left (List.mem_cons_of_mem _)

theorem Yields.of_gather {s : Seed} {is : List String} {cs : List Candidate} {e : Element}
    (h : Yields (s.gather is cs).2 e) : Yields cs e := by
  cases h with
  | @kept c r hc he hr =>
    rcases Seed.mem_gather hc with hc | ⟨v, hv, hsingle⟩
    · exact .kept hc he hr
    · cases he.symm.trans hv
      exact .taken hsingle
  | folded hc he hdone =>
    rcases Seed.mem_gather hc with hc | ⟨v, hv, -⟩
    · exact .folded hc he hdone
    · cases he.symm.trans hv
  | taken hr => exact .taken hr

theorem isSingle_toArray (s : Seed) (is : List String) : isSingle (s.toArray is) = false := by
  rw [isSingle, Seed.toArray]
  exact Bool.and_false _

theorem Site.yields_foldLevel {site : Site} {cs : List Candidate}
    (h : (site.foldLevel cs).2 = none) : ∀ e ∈ (site.foldLevel cs).1, Yields cs e := by
  fun_induction site.foldLevel cs with
  | case1 =>
    intro e he
    cases he
  | case2 c cs d es hc f hf => cases h
  | case3 c cs d es hc hf fs f hfold ih =>
    rw [hfold] at ih
    refine List.forall_mem_cons.2 ⟨.folded List.mem_cons_self hc hf, fun e he => ?_⟩
    exact (ih h e he).mono fun c => List.mem_cons_of_mem _
  | case4 c cs r hc hmarked => cases h
  | case5 c cs r hc hmarked hseed es f hfold ih =>
    rw [hfold] at ih
    refine List.forall_mem_cons.2 ⟨?_, fun e he => ?_⟩
    · cases hsingle : isSingle r with
      | false => exact .taken hsingle
      | true => exact .kept List.mem_cons_self hc (by simpa [hsingle] using hmarked)
    · exact (ih h e he).mono fun c => List.mem_cons_of_mem _
  | case6 c cs r hc hmarked s hseed gathered here es f hfold ih =>
    rw [hfold] at ih
    have hsingle := (Site.seed?_eq_some hseed).1
    refine List.forall_mem_cons.2 ⟨?_, fun e he => ?_⟩
    · by_cases hone : gathered.1.length = 1
      · have hhere : here = r := if_pos hone
        rw [hhere]
        exact .kept List.mem_cons_self hc (by simpa [hsingle] using hmarked)
      · have hhere : here = s.toArray gathered.1 := if_neg hone
        rw [hhere]
        exact .taken (isSingle_toArray s _)
    · exact (ih h e he).of_gather.mono fun c => List.mem_cons_of_mem _

/-! ## A folded level is at rest -/

/-- What folding makes of a cluster is a cluster. -/
def Candidate.KeepsKind (c : Candidate) : Prop :=
  ∀ d es, c.element = .cluster d es → isLone c.folded = false

theorem keepsKind_gather {s : Seed} {is : List String} {cs : List Candidate}
    (h : ∀ c ∈ cs, c.KeepsKind) : ∀ c ∈ (s.gather is cs).2, c.KeepsKind := by
  intro c hc d es hd
  rcases Seed.mem_gather hc with hc | ⟨v, hv, -⟩
  · exact h c hc d es hd
  · cases hd.symm.trans hv

/-- A register that stays alone found no other to continue it. -/
theorem Seed.gather_of_length {s : Seed} {is : List String} {cs : List Candidate}
    (h : (s.gather is cs).1.length = is.length) :
    (∀ c ∈ cs, s.takes? is.length c.element = none) ∧ (s.gather is cs).2 = cs := by
  induction cs with
  | nil => exact ⟨List.forall_mem_nil _, rfl⟩
  | cons c cs ih =>
    rw [Seed.gather] at h ⊢
    split at h
    · rename_i i htakes
      have hlength := (s.gather_prefix (is ++ [i]) cs).length_le
      rw [List.length_append, List.length_singleton] at hlength
      simp only at h
      omega
    · rename_i htakes
      obtain ⟨hnone, hsame⟩ := ih h
      exact ⟨List.forall_mem_cons.2 ⟨htakes, hnone⟩, congrArg (List.cons c) hsame⟩

theorem Site.apart_foldLevel {site : Site} {cs : List Candidate} (hcs : ∀ c ∈ cs, c.KeepsKind)
    (h : (site.foldLevel cs).2 = none) : (site.foldLevel cs).1.Pairwise site.Apart := by
  fun_induction site.foldLevel cs with
  | case1 => exact .nil
  | case2 c cs d es hc f hf => cases h
  | case3 c cs d es hc hf fs f hfold ih =>
    rw [hfold] at ih
    obtain ⟨hkind, hcs⟩ := List.forall_mem_cons.1 hcs
    refine List.pairwise_cons.2 ⟨fun e _ => Site.apart_of fun hlone _ => ?_, ih hcs h⟩
    rw [hkind d es hc] at hlone
    cases hlone
  | case4 c cs r hc hmarked => cases h
  | case5 c cs r hc hmarked hseed es f hfold ih =>
    rw [hfold] at ih
    refine List.pairwise_cons.2 ⟨fun e _ v s hv hs => ?_, ih (List.forall_mem_cons.1 hcs).2 h⟩
    cases hv
    rw [hseed] at hs
    cases hs
  | case6 c cs r hc hmarked s hseed gathered here es f hfold ih =>
    have hyields : (site.foldLevel gathered.2).2 = none →
        ∀ e ∈ (site.foldLevel gathered.2).1, Yields gathered.2 e := Site.yields_foldLevel
    rw [hfold] at ih hyields
    have hcs := (List.forall_mem_cons.1 hcs).2
    refine List.pairwise_cons.2 ⟨fun e he v t hv ht => ?_, ih (keepsKind_gather hcs) h⟩
    by_cases hone : gathered.1.length = 1
    · have hhere : here = r := if_pos hone
      have hstop : (∀ c ∈ cs, s.takes? [s.index].length c.element = none) ∧ gathered.2 = cs :=
        Seed.gather_of_length hone
      obtain ⟨hnone, hsame⟩ := hstop
      cases hv
      rw [hhere, hseed] at ht
      cases ht
      have hyields := hyields h e he
      rw [hsame] at hyields
      cases hyields with
      | kept hc hregister hr => exact hregister ▸ hnone _ hc
      | folded hc hcluster hdone => exact Seed.takes?_eq_none (hcs _ hc _ _ hcluster)
      | taken hr => exact Seed.takes?_eq_none hr
    · have hhere : here = s.toArray gathered.1 := if_neg hone
      cases hv
      have hsingle := (Site.seed?_eq_some ht).1
      rw [hhere, isSingle_toArray] at hsingle
      cases hsingle

/-! ### The order of single registers -/

theorem filter_isLone_cons_sublist (e : Element) {es fs : List Element}
    (h : (es.filter isLone).Sublist (fs.filter isLone)) :
    (es.filter isLone).Sublist ((e :: fs).filter isLone) :=
  h.trans ((List.sublist_cons_self e fs).filter _)

theorem filter_isLone_cons_cons (e : Element) {es fs : List Element}
    (h : (es.filter isLone).Sublist (fs.filter isLone)) :
    ((e :: es).filter isLone).Sublist ((e :: fs).filter isLone) := by
  by_cases he : isLone e = true
  · rw [List.filter_cons_of_pos he, List.filter_cons_of_pos he]
    exact h.cons_cons e
  · rw [List.filter_cons_of_neg he, List.filter_cons_of_neg he]
    exact h

theorem filter_isLone_cons_of_not {e : Element} (he : isLone e = false) (es : List Element) :
    (e :: es).filter isLone = es.filter isLone :=
  List.filter_cons_of_neg (by rw [he]; exact Bool.false_ne_true)

theorem Seed.filter_gather (s : Seed) (is : List String) (cs : List Candidate) :
    (((s.gather is cs).2.map Candidate.element).filter isLone).Sublist
      ((cs.map Candidate.element).filter isLone) := by
  induction cs generalizing is with
  | nil => exact List.Sublist.refl _
  | cons c cs ih =>
    rw [Seed.gather, List.map_cons]
    split
    · rename_i i htakes
      obtain ⟨v, hv, -⟩ := Seed.takes?_eq_some htakes
      have hdeleted : isLone c.delete.element = false := by
        rw [element_delete, hv]
        rfl
      rw [List.map_cons, filter_isLone_cons_of_not hdeleted]
      exact filter_isLone_cons_sublist _ (ih _)
    · exact filter_isLone_cons_cons _ (ih _)

/-- The registers that stay single do so in their order. -/
theorem Site.filter_foldLevel {site : Site} {cs : List Candidate} (hcs : ∀ c ∈ cs, c.KeepsKind)
    (h : (site.foldLevel cs).2 = none) :
    ((site.foldLevel cs).1.filter isLone).Sublist ((cs.map Candidate.element).filter isLone) := by
  fun_induction site.foldLevel cs with
  | case1 => exact List.Sublist.refl _
  | case2 c cs d es hc f hf => cases h
  | case3 c cs d es hc hf fs f hfold ih =>
    rw [hfold] at ih
    obtain ⟨hkind, hcs⟩ := List.forall_mem_cons.1 hcs
    rw [List.map_cons, filter_isLone_cons_of_not (hkind d es hc)]
    exact filter_isLone_cons_sublist _ (ih hcs h)
  | case4 c cs r hc hmarked => cases h
  | case5 c cs r hc hmarked hseed es f hfold ih =>
    rw [hfold] at ih
    rw [List.map_cons, hc]
    exact filter_isLone_cons_cons _ (ih (List.forall_mem_cons.1 hcs).2 h)
  | case6 c cs r hc hmarked s hseed gathered here es f hfold ih =>
    rw [hfold] at ih
    have ih := (ih (keepsKind_gather (List.forall_mem_cons.1 hcs).2) h).trans
      (s.filter_gather [s.index] cs)
    rw [List.map_cons, hc]
    by_cases hone : gathered.1.length = 1
    · have hhere : here = r := if_pos hone
      rw [hhere]
      exact filter_isLone_cons_cons _ ih
    · have hhere : here = s.toArray gathered.1 := if_neg hone
      rw [filter_isLone_cons_of_not (hhere ▸ isSingle_toArray s _)]
      exact filter_isLone_cons_sublist _ ih

/-! ### Cleaning up -/

/-- The element without the deleted ones in it, in order at every level. -/
def tidy (e : Element) : Element := e.compact.sortWithin

theorem isLone_tidy (e : Element) : isLone (tidy e) = isLone e := by cases e <;> rfl

/-- The elements without the deleted ones, in order at every level. -/
def tidyAll (es : List Element) : List Element := sortAll (compactAll es)

theorem tidyAll_perm (es : List Element) :
    (tidyAll es).Perm ((es.filter (!·.deleted)).map tidy) := by
  rw [tidyAll, sortAll, sortEach_eq_map, compactAll_eq_map, List.map_map]
  exact sortLevel_perm _

theorem exists_of_mem_tidyAll {es : List Element} {e : Element} (h : e ∈ tidyAll es) :
    ∃ f ∈ es, e = tidy f := by
  obtain ⟨f, hf, rfl⟩ := List.mem_map.1 ((tidyAll_perm es).mem_iff.1 h)
  exact ⟨f, (List.mem_filter.1 hf).1, rfl⟩

theorem tidyAll_filter (es : List Element) : tidyAll (es.filter (!·.deleted)) = tidyAll es := by
  rw [tidyAll, compactAll_eq_map, List.filter_filter, tidyAll, compactAll_eq_map]
  simp only [Bool.and_self]

theorem tidy_cluster (c : Cluster) (es : List Element) :
    tidy (.cluster c es) = .cluster c (tidyAll es) := rfl

/-- Cleaning up leaves single registers that are in order where they are. -/
theorem filter_isLone_tidyAll {es : List Element} (h : IsOrdered (es.filter isLone)) :
    (tidyAll es).filter isLone = es.filter isLone := by
  have hsame : ∀ e ∈ es.filter isLone, tidy e = e := by
    intro e he
    obtain ⟨r, rfl, -⟩ := exists_of_isLone (List.mem_filter.1 he).2
    rfl
  have hkept : (es.filter (!·.deleted)).filter isLone = es.filter isLone := by
    rw [List.filter_filter]
    apply List.filter_congr
    intro e _
    cases hlone : isLone e with
    | false => rfl
    | true =>
      obtain ⟨r, rfl, hsingle⟩ := exists_of_isLone hlone
      rw [deleted, (isSingle_iff.1 hsingle).1]
      rfl
  have hlone : isLone ∘ tidy = isLone := funext isLone_tidy
  rw [tidyAll, sortAll, ← sortLevel_filter, sortEach_eq_map, compactAll_eq_map, List.map_map]
  show sortLevel ((((es.filter (!·.deleted)).map tidy)).filter isLone) = _
  rw [List.filter_map, hlone, hkept, List.map_congr_left hsame, List.map_id', h.sortLevel_eq]

theorem pairwise_apart_of_filter {site : Site} {es : List Element}
    (h : (es.filter isLone).Pairwise site.Apart) : es.Pairwise site.Apart :=
  (List.pairwise_filter.1 h).imp Site.apart_of

/-! ### The fixed point -/

/-- Folding an element and cleaning up leaves nothing to fold in it. -/
def Site.Settles (site : Site) (e : Element) : Prop :=
  (site.foldInside e).2 = none →
    site.foldInside (tidy (site.foldInside e).1) = (tidy (site.foldInside e).1, none)

theorem Site.foldInside_cluster (site : Site) (c : Cluster) (es : List Element) :
    site.foldInside (.cluster c es) =
      (.cluster c (if (site.fold es).2.isSome then (site.fold es).1
        else (site.fold es).1.filter (!·.deleted)), (site.fold es).2) := by
  rw [Site.foldInside]
  rfl

/-- The elements of a level in order, each with its folded inside. -/
def Site.inOrder (site : Site) (es : List Element) : List Candidate :=
  (site.candidates es).mergeSort fun a b => a.element.precedes b.element

theorem Site.map_element_inOrder (site : Site) (es : List Element) :
    (site.inOrder es).map Candidate.element = sortLevel es := by
  have hcandidates : (site.candidates es).map Candidate.element = es := by
    rw [Site.candidates_eq_map, List.map_map]
    exact List.map_id es
  have hmap := List.map_mergeSort (f := Candidate.element) (l := site.candidates es)
    (r := fun a b => a.element.precedes b.element) (s := precedes) fun _ _ _ _ => rfl
  rw [Site.inOrder, hmap, hcandidates, sortLevel]

theorem Site.exists_of_mem_inOrder {site : Site} {es : List Element} {c : Candidate}
    (h : c ∈ site.inOrder es) :
    ∃ e ∈ es, c = ⟨e, (site.foldInside e).1, (site.foldInside e).2⟩ := by
  have hc := (List.mergeSort_perm (site.candidates es) _).mem_iff.1 h
  rw [Site.candidates_eq_map] at hc
  obtain ⟨e, he, hce⟩ := List.mem_map.1 hc
  exact ⟨e, he, hce.symm⟩

theorem Site.keepsKind_inOrder {site : Site} {es : List Element} :
    ∀ c ∈ site.inOrder es, c.KeepsKind := by
  intro c hc d fs hd
  obtain ⟨e, -, rfl⟩ := Site.exists_of_mem_inOrder hc
  cases e with
  | register r => cases hd
  | cluster d fs =>
    show isLone (site.foldInside (.cluster d fs)).1 = false
    rw [Site.foldInside_cluster]
    rfl

/-- A level that could be folded keeps its single registers in order. -/
theorem Site.isOrdered_lone {site : Site} {es : List Element} (h : (site.fold es).2 = none) :
    IsOrdered ((site.fold es).1.filter isLone) := by
  have hlone := Site.filter_foldLevel Site.keepsKind_inOrder h
  rw [Site.map_element_inOrder] at hlone
  exact ((isOrdered_sortLevel es).filter _).sublist hlone

/-- A single register of a folded level is one that has no index. -/
theorem Yields.unmarked {cs : List Candidate} (hcs : ∀ c ∈ cs, c.KeepsKind) {e : Element}
    (h : Yields cs e) {r : Register} (he : e = .register r) (hsingle : isSingle r = true) :
    Placeholder.isIn r.name = false := by
  cases h with
  | kept _ _ hunmarked =>
    cases he
    exact hunmarked
  | folded hc hcluster =>
    have hnot := hcs _ hc _ _ hcluster
    rw [he] at hnot
    exact absurd hsingle (Bool.eq_false_iff.1 hnot)
  | taken hnot =>
    cases he
    exact absurd hsingle (Bool.eq_false_iff.1 hnot)

/-- A level that could be folded is at rest once it is cleaned up. -/
theorem Site.rests_of_fold {site : Site} {es : List Element} (hes : ∀ e ∈ es, site.Settles e)
    (h : (site.fold es).2 = none) : site.Rests (tidyAll (site.fold es).1) := by
  have hyields : ∀ e ∈ (site.fold es).1, Yields (site.inOrder es) e := Site.yields_foldLevel h
  constructor
  · exact sortAll_sortAll _
  · rw [tidyAll, isIntactAll_sortAll, isIntactAll_compactAll]
  · apply pairwise_apart_of_filter
    rw [filter_isLone_tidyAll (Site.isOrdered_lone h)]
    exact (Site.apart_foldLevel Site.keepsKind_inOrder h).filter _
  · intro r hr hsingle
    obtain ⟨f, hf, hrf⟩ := exists_of_mem_tidyAll hr
    -- a single register is itself before it was cleaned up
    have hlone : isLone f = true := by
      rw [← isLone_tidy, ← hrf]
      exact hsingle
    obtain ⟨v, rfl, -⟩ := exists_of_isLone hlone
    cases hrf
    exact (hyields _ hf).unmarked Site.keepsKind_inOrder rfl hsingle
  · intro e he
    obtain ⟨f, hf, rfl⟩ := exists_of_mem_tidyAll he
    cases hyields f hf with
    | kept => rfl
    | taken => rfl
    | folded hc hcluster hdone =>
      obtain ⟨x, hx, rfl⟩ := Site.exists_of_mem_inOrder hc
      exact hes x hx hdone

theorem Site.settles (site : Site) (e : Element) : site.Settles e := by
  induction e using tree_induction with
  | register r => exact fun _ => rfl
  | cluster c es ih =>
    intro h
    rw [Site.foldInside_cluster] at h ⊢
    simp only at h
    simp only [h, Option.isSome_none, Bool.false_eq_true, if_false]
    rw [tidy_cluster, tidyAll_filter]
    exact (Site.rests_of_fold ih h).foldInside c

end RegisterMap.Arrays

namespace RegisterMap.Peripheral

open Arrays

/-- Folding changes the registers only. -/
theorem foldArrays_state (p : Peripheral) (cmp : Comparison) :
    (p.foldArrays cmp).state = { p with registers := (p.foldArrays cmp).state.registers } := by
  unfold foldArrays
  split
  · rfl
  · simp only
    split <;> rfl

/-- Nothing is folded in a peripheral whose registers are at rest. -/
theorem foldArrays_of_rests {p : Peripheral} {cmp : Comparison} (hp : p.isDerived = false)
    (h : Site.Rests ⟨p.name, cmp⟩ p.registers) : p.foldArrays cmp = .pure p := by
  unfold foldArrays
  rw [hp, h.fold]
  simp only [Bool.false_eq_true, if_false, compact, sort,
    Element.compactAll_of_isIntactAll _ h.intact, h.sorted]

/-- Folding that succeeds leaves the registers at rest. -/
theorem rests_foldArrays {p : Peripheral} {cmp : Comparison} (hp : p.isDerived = false)
    (h : (p.foldArrays cmp).failure = none) :
    Site.Rests ⟨p.name, cmp⟩ (p.foldArrays cmp).state.registers := by
  unfold foldArrays at h ⊢
  rw [hp] at h ⊢
  simp only [Bool.false_eq_true, if_false] at h ⊢
  cases hfold : (Site.fold ⟨p.name, cmp⟩ p.registers).2 with
  | some f =>
    simp only [hfold] at h
    cases h
  | none =>
    simp only
    exact Site.rests_of_fold (fun e _ => Site.settles _ e) hfold

end RegisterMap.Peripheral
