import RegisterMap.Proofs.Arrays.Rest

/-!
# What is left to fold

Every array that folding makes takes the place of two registers at least. So there are no more
registers behind a folding than in front of it, and where there are as many the level is at rest
(`Arrays.Site.rests_of_countAll`).
-/

namespace RegisterMap.Arrays

open Element

/-- Every register that an array takes is one less. -/
theorem Seed.countAll_gather (s : Seed) (is : List String) (cs : List Candidate) :
    countAll ((s.gather is cs).2.map Candidate.element) + (s.gather is cs).1.length =
      countAll (cs.map Candidate.element) + is.length := by
  induction cs generalizing is with
  | nil => rfl
  | cons c cs ih =>
    rw [gather]
    split
    · rename_i i htakes
      obtain ⟨v, hv, hsingle, -⟩ := takes?_eq_some htakes
      have ih := ih (is ++ [i])
      have hdeleted : c.delete.element.deleted = true := deleted_delete c.element
      have hone : c.element.count = 1 := by rw [hv, count_register (isSingle_iff.1 hsingle).1]
      rw [List.length_append, List.length_singleton] at ih
      simp only [List.map_cons, countAll_cons_of_deleted hdeleted, countAll, hone]
      omega
    · have ih := ih is
      simp only [List.map_cons, countAll]
      omega

/-- What folding makes of a cluster has no more registers. -/
def Candidate.Shrinks (c : Candidate) : Prop :=
  ∀ d es, c.element = .cluster d es → c.failure = none → c.folded.count ≤ c.element.count

theorem shrinks_gather {s : Seed} {is : List String} {cs : List Candidate}
    (h : ∀ c ∈ cs, c.Shrinks) : ∀ c ∈ (s.gather is cs).2, c.Shrinks := by
  intro c hc d es hd
  rcases Seed.mem_gather hc with hc | ⟨v, hv, -⟩
  · exact h c hc d es hd
  · cases hd.symm.trans hv

/-- There is nothing to fold in the level, and folding left the clusters their registers. -/
structure Site.Unfolded (site : Site) (cs : List Candidate) : Prop where
  apart : (cs.map Candidate.element).Pairwise site.Apart
  unmarked : ∀ r, .register r ∈ cs.map Candidate.element → isSingle r = true →
    Placeholder.isIn r.name = false
  inside : ∀ c ∈ cs, ∀ d es, c.element = .cluster d es →
    c.failure = none ∧ c.element.count ≤ c.folded.count

variable {site : Site} {cs : List Candidate} {c : Candidate}

theorem Site.Unfolded.cons_cluster (h : site.Unfolded cs) {d : Cluster} {es : List Element}
    (hc : c.element = .cluster d es) (hdone : c.failure = none)
    (hcount : c.element.count ≤ c.folded.count) : site.Unfolded (c :: cs) where
  apart := by
    refine List.pairwise_cons.2 ⟨fun e _ r s hr => ?_, h.apart⟩
    cases hc.symm.trans hr
  unmarked r hr hsingle := by
    rcases List.mem_cons.1 hr with hr | hr
    · cases hc.symm.trans hr.symm
    · exact h.unmarked r hr hsingle
  inside := List.forall_mem_cons.2 ⟨fun _ _ _ => ⟨hdone, hcount⟩, h.inside⟩

theorem Site.Unfolded.cons_register (h : site.Unfolded cs) {r : Register}
    (hc : c.element = .register r)
    (hmarked : ¬(isSingle r && Placeholder.isIn r.name) = true)
    (hapart : ∀ s, site.seed? r = some s → ∀ c ∈ cs, s.takes? 1 c.element = none) :
    site.Unfolded (c :: cs) where
  apart := by
    refine List.pairwise_cons.2 ⟨fun e he v s hv hs => ?_, h.apart⟩
    obtain ⟨d, hd, rfl⟩ := List.mem_map.1 he
    cases hc.symm.trans hv
    exact hapart s hs d hd
  unmarked v hv hsingle := by
    rcases List.mem_cons.1 hv with hv | hv
    · cases hc.symm.trans hv.symm
      simpa [hsingle] using hmarked
    · exact h.unmarked v hv hsingle
  inside := by
    refine List.forall_mem_cons.2 ⟨fun d es hd => ?_, h.inside⟩
    cases hc.symm.trans hd

/-- Folding leaves a level no more registers, and as many only where it finds nothing to fold. -/
theorem Site.countAll_foldLevel (hcs : ∀ c ∈ cs, c.Shrinks) (h : (site.foldLevel cs).2 = none) :
    countAll (site.foldLevel cs).1 ≤ countAll (cs.map Candidate.element) ∧
      (countAll (cs.map Candidate.element) ≤ countAll (site.foldLevel cs).1 →
        site.Unfolded cs) := by
  fun_induction site.foldLevel cs with
  | case1 =>
    exact ⟨Nat.le_refl _, fun _ => ⟨.nil, fun _ h => absurd h List.not_mem_nil,
      List.forall_mem_nil _⟩⟩
  | case2 c cs d es hc f hf => cases h
  | case3 c cs d es hc hf fs f hfold ih =>
    rw [hfold] at ih
    obtain ⟨hshrinks, hcs⟩ := List.forall_mem_cons.1 hcs
    simp only at ih
    obtain ⟨hle, hunfolded⟩ := ih hcs h
    have hcount := hshrinks d es hc hf
    rw [List.map_cons, countAll, countAll]
    refine ⟨Nat.add_le_add hcount hle, fun hsame => ?_⟩
    exact (hunfolded (by omega)).cons_cluster hc hf (by omega)
  | case4 c cs r hc hmarked => cases h
  | case5 c cs r hc hmarked hseed es f hfold ih =>
    rw [hfold] at ih
    simp only at ih
    obtain ⟨hle, hunfolded⟩ := ih (List.forall_mem_cons.1 hcs).2 h
    rw [List.map_cons, countAll, countAll, hc]
    refine ⟨Nat.add_le_add_left hle _, fun hsame => ?_⟩
    refine (hunfolded (by omega)).cons_register hc hmarked fun s hs => ?_
    rw [hseed] at hs
    cases hs
  | case6 c cs r hc hmarked s hseed gathered here es f hfold ih =>
    rw [hfold] at ih
    simp only at ih
    have hcs := (List.forall_mem_cons.1 hcs).2
    obtain ⟨hle, hunfolded⟩ := ih (shrinks_gather hcs) h
    have hgather : countAll (gathered.2.map Candidate.element) + gathered.1.length =
        countAll (cs.map Candidate.element) + 1 := s.countAll_gather [s.index] cs
    have hlength : 1 ≤ gathered.1.length := (s.gather_prefix [s.index] cs).length_le
    have hintact : r.deleted = false := (isSingle_iff.1 (Site.seed?_eq_some hseed).1).1
    have hhere : (Element.register here).count = 1 := by
      apply count_register
      show (if gathered.1.length = 1 then r else s.toArray gathered.1).deleted = false
      split
      · exact hintact
      · show s.register.deleted = false
        rw [(Site.seed?_eq_some hseed).2.1]
        exact hintact
    rw [List.map_cons, countAll, countAll, hc, count_register hintact, hhere]
    refine ⟨by omega, fun hsame => ?_⟩
    have hone : (s.gather [s.index] cs).1.length = 1 := by
      show gathered.1.length = 1
      omega
    obtain ⟨hnone, hkept⟩ := s.gather_of_length hone
    have hunfolded := hunfolded (by omega)
    rw [show gathered.2 = cs from hkept] at hunfolded
    refine hunfolded.cons_register hc hmarked fun t ht => ?_
    rw [hseed] at ht
    cases ht
    exact hnone

/-! ## Every level -/

theorem Site.countAll_fold_of {es : List Element}
    (hes : ∀ e ∈ es, Candidate.Shrinks ⟨e, (site.foldInside e).1, (site.foldInside e).2⟩)
    (h : (site.fold es).2 = none) :
    countAll (site.fold es).1 ≤ countAll es ∧
      (countAll es ≤ countAll (site.fold es).1 → site.Unfolded (site.inOrder es)) := by
  have hcs : ∀ c ∈ site.inOrder es, c.Shrinks := by
    intro c hc
    obtain ⟨e, he, rfl⟩ := Site.exists_of_mem_inOrder hc
    exact hes e he
  have hfold := Site.countAll_foldLevel hcs h
  rw [Site.map_element_inOrder, countAll_perm (sortLevel_perm es)] at hfold
  exact hfold

theorem Site.shrinks (site : Site) (e : Element) :
    Candidate.Shrinks ⟨e, (site.foldInside e).1, (site.foldInside e).2⟩ := by
  induction e using tree_induction with
  | register r => exact fun _ _ hc => nomatch hc
  | cluster c es ih =>
    rintro d fs ⟨⟩ hdone
    rw [Site.foldInside_cluster] at hdone ⊢
    simp only at hdone
    simp only [hdone, Option.isSome_none, Bool.false_eq_true, if_false, count, countAll_filter]
    split
    · exact Nat.le_refl _
    · exact (Site.countAll_fold_of ih hdone).1

/-- Folding leaves no more registers, and as many only where it finds nothing to fold. -/
theorem Site.countAll_fold {es : List Element} (h : (site.fold es).2 = none) :
    countAll (site.fold es).1 ≤ countAll es ∧
      (countAll es ≤ countAll (site.fold es).1 → site.Unfolded (site.inOrder es)) :=
  Site.countAll_fold_of (fun e _ => site.shrinks e) h

/-- A level that is in order, and in which folding finds nothing at any depth, is at rest. -/
theorem Site.rests_of_unfolded {es : List Element} (hsorted : sortAll es = es)
    (hintact : isIntactAll es = true) (h : site.Unfolded (site.inOrder es))
    (hes : ∀ e ∈ es, (site.foldInside e).2 = none → e.count ≤ (site.foldInside e).1.count →
      site.foldInside e = (e, none)) : site.Rests es := by
  have helements : (site.inOrder es).map Candidate.element = es := by
    rw [Site.map_element_inOrder]
    exact (sortAll_eq_self_iff.1 hsorted).1.sortLevel_eq
  refine ⟨hsorted, hintact, helements ▸ h.apart, helements ▸ h.unmarked, fun e he => ?_⟩
  have hmem : e ∈ (site.inOrder es).map Candidate.element := by
    rw [helements]
    exact he
  obtain ⟨c, hc, rfl⟩ := List.mem_map.1 hmem
  obtain ⟨e, -, rfl⟩ := Site.exists_of_mem_inOrder hc
  cases e with
  | register r => rfl
  | cluster d fs =>
    obtain ⟨hdone, hcount⟩ := h.inside _ hc d fs rfl
    exact hes _ he hdone hcount

theorem Site.foldInside_of_count (e : Element) (hsorted : e.sortWithin = e)
    (hintact : e.isIntact = true) (h : (site.foldInside e).2 = none)
    (hcount : e.count ≤ (site.foldInside e).1.count) : site.foldInside e = (e, none) := by
  induction e using tree_induction with
  | register r => rfl
  | cluster c es ih =>
    rw [isIntact, Bool.and_eq_true, Bool.not_eq_true'] at hintact
    obtain ⟨hc, hes⟩ := hintact
    have hsorted : sortAll es = es := (Element.cluster.inj hsorted).2
    rw [Site.foldInside_cluster] at h hcount
    simp only at h
    simp only [h, Option.isSome_none, Bool.false_eq_true, if_false, count, hc, countAll_filter]
      at hcount
    refine Site.Rests.foldInside ?_ c
    refine Site.rests_of_unfolded hsorted hes ((Site.countAll_fold h).2 hcount) fun e he => ?_
    exact ih e he ((sortAll_eq_self_iff.1 hsorted).2 e he) (isIntactAll_iff.1 hes e he)

/-- A level in order that has as many registers behind a folding as in front of it is at rest. -/
theorem Site.rests_of_countAll {es : List Element} (hsorted : sortAll es = es)
    (hintact : isIntactAll es = true) (h : (site.fold es).2 = none)
    (hcount : countAll es ≤ countAll (site.fold es).1) : site.Rests es :=
  Site.rests_of_unfolded hsorted hintact ((Site.countAll_fold h).2 hcount) fun e he =>
    Site.foldInside_of_count e ((sortAll_eq_self_iff.1 hsorted).2 e he)
      (isIntactAll_iff.1 hintact e he)

end RegisterMap.Arrays

namespace RegisterMap.Peripheral

open Arrays Element

/-- Folding leaves a peripheral no more registers, and as many only where it finds nothing to
fold. -/
theorem countAll_foldArrays {p : Peripheral} {cmp : Comparison} (hp : p.isDerived = false)
    (h : (p.foldArrays cmp).failure = none) :
    countAll (p.foldArrays cmp).state.registers ≤ countAll p.registers ∧
      (sortAll p.registers = p.registers → isIntactAll p.registers = true →
        countAll p.registers ≤ countAll (p.foldArrays cmp).state.registers →
        Site.Rests ⟨p.name, cmp⟩ p.registers) := by
  unfold foldArrays at h ⊢
  rw [hp] at h ⊢
  simp only [Bool.false_eq_true, if_false] at h ⊢
  cases hfold : (Site.fold ⟨p.name, cmp⟩ p.registers).2 with
  | some f =>
    simp only [hfold] at h
    cases h
  | none =>
    have hstate : countAll (sortAll (compactAll (Site.fold ⟨p.name, cmp⟩ p.registers).1)) =
        countAll (Site.fold ⟨p.name, cmp⟩ p.registers).1 := by
      rw [countAll_sortAll, countAll_compactAll]
    show countAll (sortAll (compactAll _)) ≤ _ ∧ (_ → _ → _ ≤ countAll (sortAll (compactAll _)) → _)
    rw [hstate]
    exact ⟨(Site.countAll_fold hfold).1, fun hsorted hintact =>
      Site.rests_of_countAll hsorted hintact hfold⟩

end RegisterMap.Peripheral
