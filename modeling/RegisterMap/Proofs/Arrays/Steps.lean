import Mathlib.Data.List.Perm.Basic
import RegisterMap.Proofs.Arrays.Names
import RegisterMap.Proofs.Arrays.Rest

/-!
# Folding in steps

Folding that comes to its end leaves each element as it is, folds what is in it, or makes one array
of a register and others that follow it (`Arrays.Site.Folds`, `Peripheral.folds_foldArrays`). What
is true of these steps, in whatever order the elements stand, is true of folding.
-/

namespace RegisterMap.Arrays

open Element

/-- The registers continue the array of the seed from a place on, with these indexes. -/
inductive Seed.Series (s : Seed) : Nat → List Register → List String → Prop
  | nil (n : Nat) : Series s n [] []
  | cons {n : Nat} {v : Register} {vs : List Register} {i : String} {is : List String}
      (takes : s.takes? n (.register v) = some i) (tail : Series s (n + 1) vs is) :
      Series s n (v :: vs) (i :: is)

/-- What folding makes of the elements of a level, up to their order. -/
inductive Site.Folds (site : Site) : List Element → List Element → Prop
  | nil : Folds site [] []
  | kept (r : Register) {es fs : List Element} (tail : Folds site es fs) :
      Folds site (.register r :: es) (.register r :: fs)
  | inside (c : Cluster) {es es' fs fs' : List Element} (children : Folds site es fs)
      (tail : Folds site es' fs') : Folds site (.cluster c es :: es') (.cluster c fs :: fs')
  | array {r : Register} {s : Seed} {vs : List Register} {is : List String} {es fs : List Element}
      (seed : site.seed? r = some s) (unmarked : Placeholder.isIn r.name = false)
      (series : s.Series 1 vs is) (nonempty : vs ≠ []) (tail : Folds site es fs) :
      Folds site (.register r :: (vs.map .register ++ es))
        (.register (s.toArray (s.index :: is)) :: fs)
  | perm {es es' fs fs' : List Element} (before : es.Perm es') (after : fs.Perm fs')
      (folds : Folds site es fs) : Folds site es' fs'

variable {site : Site} {s : Seed} {n : Nat} {vs : List Register} {is : List String}

theorem Seed.Series.length_eq (h : s.Series n vs is) : is.length = vs.length := by
  induction h with
  | nil => rfl
  | cons _ _ ih => rw [List.length_cons, List.length_cons, ih]

/-- What is true of each register that may be taken is true of a series. -/
theorem Seed.Series.forall_mem {P : Register → Prop} (h : s.Series n vs is)
    (hP : ∀ n v i, s.takes? n (.register v) = some i → P v) : ∀ v ∈ vs, P v := by
  induction h with
  | nil => exact List.forall_mem_nil _
  | cons takes _ ih => exact List.forall_mem_cons.2 ⟨hP _ _ _ takes, ih⟩

/-- Folding goes with putting everything in order. -/
theorem Site.Folds.sortAll {es fs : List Element} (h : site.Folds es fs) :
    site.Folds es (sortAll fs) := by
  have hcons (f : Element) (fs : List Element) :
      (f.sortWithin :: Element.sortAll fs).Perm (Element.sortAll (f :: fs)) :=
    ((sortLevel_perm _).cons _).trans (sortLevel_perm _).symm
  induction h with
  | nil => exact .perm (.refl _) (sortLevel_perm []).symm .nil
  | kept r _ ih => exact .perm (.refl _) (hcons _ _) (.kept r ih)
  | inside c _ _ ihInside ih => exact .perm (.refl _) (hcons _ _) (.inside c ihInside ih)
  | array hs hr hseries hne _ ih => exact .perm (.refl _) (hcons _ _) (.array hs hr hseries hne ih)
  | perm hes hfs _ ih =>
    refine .perm hes ((sortLevel_perm _).trans (.trans ?_ (sortLevel_perm _).symm)) ih
    rw [sortEach_eq_map, sortEach_eq_map]
    exact hfs.map _

/-! ## Folding is made of these steps -/

/-- The elements of candidates that are not deleted. -/
def live (cs : List Candidate) : List Element :=
  (cs.map Candidate.element).filter (!·.deleted)

theorem live_cons_of_deleted {c : Candidate} (h : c.element.deleted = true) (cs : List Candidate) :
    live (c :: cs) = live cs := by
  simp [live, h]

theorem live_cons {c : Candidate} (h : c.element.deleted = false) (cs : List Candidate) :
    live (c :: cs) = c.element :: live cs := by
  simp [live, h]

/-- The elements that an array takes are a series. -/
theorem Seed.series_gather (s : Seed) (js : List String) (cs : List Candidate) : ∃ vs is,
    (s.gather js cs).1 = js ++ is ∧ s.Series js.length vs is ∧
      (live cs).Perm (vs.map .register ++ live (s.gather js cs).2) := by
  induction cs generalizing js with
  | nil => exact ⟨[], [], (List.append_nil js).symm, .nil _, .refl _⟩
  | cons c cs ih =>
    rw [gather]
    split
    · rename_i i htakes
      obtain ⟨v, hv, hsingle, -⟩ := Seed.takes?_eq_some htakes
      obtain ⟨vs, is, hindexes, hseries, hperm⟩ := ih (js ++ [i])
      rw [List.length_append, List.length_singleton] at hseries
      refine ⟨v :: vs, i :: is, by rw [hindexes, List.append_assoc]; rfl,
        .cons (hv ▸ htakes) hseries, ?_⟩
      have hintact : c.element.deleted = false := by
        rw [hv]
        exact (isSingle_iff.1 hsingle).1
      rw [live_cons hintact, live_cons_of_deleted (deleted_delete c.element), hv]
      exact hperm.cons _
    · obtain ⟨vs, is, hindexes, hseries, hperm⟩ := ih js
      refine ⟨vs, is, hindexes, hseries, ?_⟩
      cases hdeleted : c.element.deleted with
      | true => rwa [live_cons_of_deleted hdeleted, live_cons_of_deleted hdeleted]
      | false =>
        rw [live_cons hdeleted, live_cons hdeleted]
        exact (hperm.cons _).trans List.perm_middle.symm

/-- What folding makes of a cluster is what it makes of the elements in it. -/
def Candidate.FoldsInside (site : Site) (c : Candidate) : Prop :=
  ∀ d es, c.element = .cluster d es → c.failure = none →
    d.deleted = false ∧ ∃ fs, c.folded = .cluster d fs ∧ site.Folds es (compactAll fs)

theorem foldsInside_gather {js : List String} {cs : List Candidate}
    (h : ∀ c ∈ cs, c.FoldsInside site) : ∀ c ∈ (s.gather js cs).2, c.FoldsInside site := by
  intro c hc d es hd
  rcases Seed.mem_gather hc with hc | ⟨v, hv, -⟩
  · exact h c hc d es hd
  · cases hd.symm.trans hv

theorem compactAll_cons_register {r : Register} (h : r.deleted = false) (es : List Element) :
    compactAll (.register r :: es) = .register r :: compactAll es := by
  rw [compactAll, if_neg (by rw [deleted, h]; exact Bool.false_ne_true), compact]

theorem Site.folds_foldLevel {cs : List Candidate} (hcs : ∀ c ∈ cs, c.FoldsInside site)
    (h : (site.foldLevel cs).2 = none) :
    site.Folds (live cs) (compactAll (site.foldLevel cs).1) := by
  fun_induction site.foldLevel cs with
  | case1 => exact .nil
  | case2 c cs d es hc f hf => cases h
  | case3 c cs d es hc hf fs f hfold ih =>
    rw [hfold] at ih
    obtain ⟨hinside, hcs⟩ := List.forall_mem_cons.1 hcs
    obtain ⟨hintact, gs, hfolded, hgs⟩ := hinside d es hc hf
    have hdeleted (xs : List Element) : (Element.cluster d xs).deleted = false := hintact
    rw [live_cons (by rw [hc, hdeleted]), hc, compactAll, hfolded, hdeleted,
      if_neg Bool.false_ne_true, compact]
    exact .inside d hgs (ih hcs h)
  | case4 c cs r hc hmarked => cases h
  | case5 c cs r hc hmarked hseed es f hfold ih =>
    rw [hfold] at ih
    have ih := ih (List.forall_mem_cons.1 hcs).2 h
    cases hdeleted : r.deleted with
    | true =>
      rw [live_cons_of_deleted (by rw [hc]; exact hdeleted), compactAll, deleted, hdeleted,
        if_pos rfl]
      exact ih
    | false =>
      rw [live_cons (by rw [hc]; exact hdeleted), hc, compactAll_cons_register hdeleted]
      exact .kept r ih
  | case6 c cs r hc hmarked s hseed gathered here es f hfold ih =>
    rw [hfold] at ih
    have ih := ih (foldsInside_gather (List.forall_mem_cons.1 hcs).2) h
    obtain ⟨hsingle, hregister, -⟩ := Site.seed?_eq_some hseed
    have hintact : r.deleted = false := (isSingle_iff.1 hsingle).1
    obtain ⟨vs, is, hindexes, hseries, hperm⟩ := s.series_gather [s.index] cs
    have hindexes : gathered.1 = s.index :: is := hindexes
    have hperm : (live cs).Perm (vs.map .register ++ live gathered.2) := hperm
    rw [live_cons (by rw [hc]; exact hintact), hc]
    refine .perm (hperm.symm.cons _) (.refl _) ?_
    cases hseries with
    | nil =>
      have hhere : here = r := if_pos (by rw [hindexes]; rfl)
      rw [hhere, compactAll_cons_register hintact]
      exact .kept r ih
    | @cons _ v vs i is htakes htail =>
      have hhere : here = s.toArray (s.index :: i :: is) := by
        rw [← hindexes]
        exact if_neg (by rw [hindexes]; simp)
      rw [hhere, compactAll_cons_register (by rw [← hintact, ← hregister]; rfl)]
      exact .array hseed (by simpa [hsingle] using hmarked) (.cons htakes htail)
        (List.cons_ne_nil _ _) ih

theorem compactAll_filter (es : List Element) :
    compactAll (es.filter (!·.deleted)) = compactAll es := by
  rw [compactAll_eq_map, compactAll_eq_map, List.filter_filter]
  simp only [Bool.and_self]

theorem Site.folds_fold_of {es : List Element} (hintact : isIntactAll es = true)
    (hes : ∀ e ∈ es, Candidate.FoldsInside site ⟨e, (site.foldInside e).1, (site.foldInside e).2⟩)
    (h : (site.fold es).2 = none) : site.Folds es (compactAll (site.fold es).1) := by
  have hlive : (live (site.inOrder es)).Perm es := by
    have hall : ∀ e ∈ sortLevel es, (!e.deleted) = true := fun e he => by
      rw [deleted_of_isIntact (isIntactAll_iff.1 hintact e ((sortLevel_perm es).mem_iff.1 he))]
      rfl
    rw [live, Site.map_element_inOrder, List.filter_eq_self.2 hall]
    exact sortLevel_perm es
  refine .perm hlive (.refl _) (site.folds_foldLevel (fun c hc => ?_) h)
  obtain ⟨e, he, rfl⟩ := Site.exists_of_mem_inOrder hc
  exact hes e he

theorem Site.foldsInside (e : Element) (he : e.isIntact = true) :
    Candidate.FoldsInside site ⟨e, (site.foldInside e).1, (site.foldInside e).2⟩ := by
  induction e using tree_induction with
  | register r => rintro d es ⟨⟩
  | cluster c es ih =>
    rintro d fs ⟨⟩ h
    rw [isIntact, Bool.and_eq_true, Bool.not_eq_true'] at he
    rw [Site.foldInside_cluster] at h ⊢
    have hfold : (site.fold es).2 = none := h
    refine ⟨he.1, _, rfl, ?_⟩
    rw [hfold, Option.isSome_none, if_neg Bool.false_ne_true, compactAll_filter]
    exact Site.folds_fold_of he.2 (fun e hmem => ih e hmem (isIntactAll_iff.1 he.2 e hmem)) hfold

end RegisterMap.Arrays

/-- Folding that comes to its end is made of steps. -/
theorem RegisterMap.Peripheral.folds_foldArrays {p : Peripheral} {cmp : Comparison}
    (hp : p.derivedFrom = none) (hintact : Element.isIntactAll p.registers = true)
    (h : (p.foldArrays cmp).failure = none) :
    Arrays.Site.Folds ⟨p.name, cmp⟩ p.registers (p.foldArrays cmp).state.registers := by
  have hderived : p.isDerived = false := by rw [isDerived, hp, Option.isSome_none]
  unfold foldArrays at h ⊢
  simp only [hderived, Bool.false_eq_true, if_false] at h ⊢
  cases hfold : (Arrays.Site.fold ⟨p.name, cmp⟩ p.registers).2 with
  | some f =>
    simp only [hfold] at h
    cases h
  | none =>
    exact (Arrays.Site.folds_fold_of hintact (fun e he => Arrays.Site.foldsInside e
      (Element.isIntactAll_iff.1 hintact e he)) hfold).sortAll
