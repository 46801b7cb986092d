import RegisterMap.Proofs.Arrays.Rest

/-!
# What folding leaves everywhere

A property that all registers and clusters of a tree have, at every level (`Element.Everywhere`).
Taking out deleted elements, sorting and folding arrays leave it everywhere as long as deleting a
register and making an array of it do (`Arrays.Site.Respects`,
`Peripheral.everywhere_foldArrays`), whether the folding comes to its end or not.
-/

namespace RegisterMap

namespace Element

variable {R : Register → Prop} {C : Cluster → Prop} {e : Element} {es : List Element}

/-- Every register in the element has the one property, and every cluster the other. -/
inductive Everywhere (R : Register → Prop) (C : Cluster → Prop) : Element → Prop
  | register {r : Register} (h : R r) : Everywhere R C (.register r)
  | cluster {c : Cluster} {es : List Element} (h : C c) (hes : ∀ e ∈ es, Everywhere R C e) :
      Everywhere R C (.cluster c es)

@[simp] theorem everywhere_register {r : Register} : Everywhere R C (.register r) ↔ R r :=
  ⟨fun | .register h => h, .register⟩

@[simp] theorem everywhere_cluster {c : Cluster} :
    Everywhere R C (.cluster c es) ↔ C c ∧ ∀ e ∈ es, Everywhere R C e :=
  ⟨fun | .cluster h hes => ⟨h, hes⟩, fun h => .cluster h.1 h.2⟩

/-- A property of registers alone is one of all registers in the element. -/
theorem everywhere_iff_registers : Everywhere R (fun _ => True) e ↔ ∀ r ∈ e.registers, R r := by
  induction e using tree_induction with
  | register r => simp [registers]
  | cluster c es ih =>
    rw [everywhere_cluster, registers, registersAll_eq_flatMap, List.forall_mem_flatMap]
    simp only [true_and]
    exact forall₂_congr ih

theorem Everywhere.compact (h : e.Everywhere R C) : e.compact.Everywhere R C := by
  induction h with
  | register h => exact .register h
  | cluster h hes ih =>
    refine .cluster h fun f hf => ?_
    obtain ⟨e, he, -, rfl⟩ := mem_compactAll_iff.1 hf
    exact ih e he

theorem Everywhere.sortWithin (h : e.Everywhere R C) : e.sortWithin.Everywhere R C := by
  induction h with
  | register h => exact .register h
  | cluster h hes ih =>
    refine .cluster h fun f hf => ?_
    obtain ⟨e, he, rfl⟩ := mem_sortAll_iff.1 hf
    exact ih e he

end Element

namespace Arrays

open Element

variable {site : Site} {R : Register → Prop} {C : Cluster → Prop} {es : List Element}

/-- Deleting a register and making an array of it leave what it has. -/
structure Site.Respects (site : Site) (R : Register → Prop) : Prop where
  delete : ∀ {r : Register}, R r → R { r with deleted := true }
  array : ∀ {r : Register} {s : Seed}, site.seed? r = some s → R r → ∀ is, R (s.toArray is)

/-- The element of the candidate and its folded inside have the properties. -/
structure Candidate.Everywhere (R : Register → Prop) (C : Cluster → Prop) (c : Candidate) :
    Prop where
  element : c.element.Everywhere R C
  folded : c.folded.Everywhere R C

theorem Site.Respects.gather (hR : site.Respects R) {s : Seed} {is : List String}
    {cs : List Candidate} (hcs : ∀ c ∈ cs, c.Everywhere R C) :
    ∀ c ∈ (s.gather is cs).2, c.Everywhere R C := by
  induction cs generalizing is with
  | nil => exact hcs
  | cons c cs ih =>
    obtain ⟨hc, hcs⟩ := List.forall_mem_cons.1 hcs
    rw [Seed.gather]
    split
    · rename_i i htakes
      obtain ⟨v, hv, -⟩ := Seed.takes?_eq_some htakes
      have helement : c.element.delete.Everywhere R C := by
        have hregister := hc.element
        rw [hv, everywhere_register] at hregister
        rw [hv]
        exact .register (hR.delete hregister)
      exact List.forall_mem_cons.2 ⟨⟨helement, hc.folded⟩, ih hcs⟩
    · exact List.forall_mem_cons.2 ⟨hc, ih hcs⟩

theorem Site.Respects.foldLevel (hR : site.Respects R) {cs : List Candidate}
    (hcs : ∀ c ∈ cs, c.Everywhere R C) : ∀ e ∈ (site.foldLevel cs).1, e.Everywhere R C := by
  have hunfolded {cs : List Candidate} (hcs : ∀ c ∈ cs, c.Everywhere R C) :
      ∀ e ∈ cs.map Candidate.element, e.Everywhere R C :=
    List.forall_mem_map.2 fun c hc => (hcs c hc).element
  fun_induction site.foldLevel cs with
  | case1 => exact List.forall_mem_nil _
  | case2 c cs d es hc f hf =>
    obtain ⟨hhead, htail⟩ := List.forall_mem_cons.1 hcs
    exact List.forall_mem_cons.2 ⟨hhead.folded, hunfolded htail⟩
  | case3 c cs d es hc hf fs f hfold ih =>
    obtain ⟨hhead, htail⟩ := List.forall_mem_cons.1 hcs
    have ih := ih htail
    rw [hfold] at ih
    exact List.forall_mem_cons.2 ⟨hhead.folded, ih⟩
  | case4 c cs r hc hmarked =>
    rw [← hc]
    exact hunfolded hcs
  | case5 c cs r hc hmarked hseed fs f hfold ih =>
    obtain ⟨hhead, htail⟩ := List.forall_mem_cons.1 hcs
    have ih := ih htail
    rw [hfold] at ih
    exact List.forall_mem_cons.2 ⟨hc ▸ hhead.element, ih⟩
  | case6 c cs r hc hmarked s hs gathered here fs f hfold ih =>
    obtain ⟨hhead, htail⟩ := List.forall_mem_cons.1 hcs
    have hr : R r := by
      have hregister := hhead.element
      rwa [hc, everywhere_register] at hregister
    have hhere : R here := by
      show R (if gathered.1.length = 1 then r else s.toArray gathered.1)
      split
      · exact hr
      · exact hR.array hs hr _
    have ih := ih (hR.gather htail)
    rw [hfold] at ih
    exact List.forall_mem_cons.2 ⟨.register hhere, ih⟩

theorem Site.Respects.fold_of (hR : site.Respects R) (hes : ∀ e ∈ es, e.Everywhere R C)
    (hinside : ∀ e ∈ es, (site.foldInside e).1.Everywhere R C) :
    ∀ e ∈ (site.fold es).1, e.Everywhere R C := by
  refine hR.foldLevel fun c hc => ?_
  obtain ⟨e, he, rfl⟩ := Site.exists_of_mem_inOrder hc
  exact ⟨hes e he, hinside e he⟩

theorem Site.Respects.foldInside (hR : site.Respects R) {e : Element} (h : e.Everywhere R C) :
    (site.foldInside e).1.Everywhere R C := by
  induction h with
  | register h => exact .register h
  | @cluster c es h hes ih =>
    have hfold := hR.fold_of hes ih
    rw [Site.foldInside_cluster]
    refine .cluster h ?_
    split
    · exact hfold
    · exact fun e he => hfold e (List.mem_of_mem_filter he)

/-- What is everywhere in the elements of a level is everywhere in the folded level. -/
theorem Site.Respects.fold (hR : site.Respects R) (hes : ∀ e ∈ es, e.Everywhere R C) :
    ∀ e ∈ (site.fold es).1, e.Everywhere R C :=
  hR.fold_of hes fun e he => hR.foldInside (hes e he)

end Arrays

/-- What is everywhere in a peripheral is so after its arrays are folded, as far as they are. -/
theorem Peripheral.everywhere_foldArrays {R : Register → Prop} {C : Cluster → Prop}
    {p : Peripheral} {cmp : Comparison} (hR : Arrays.Site.Respects ⟨p.name, cmp⟩ R)
    (h : ∀ e ∈ p.registers, e.Everywhere R C) :
    ∀ e ∈ (p.foldArrays cmp).state.registers, e.Everywhere R C := by
  have hfold := hR.fold h
  unfold foldArrays
  split
  · exact h
  · simp only
    split
    · exact hfold
    · intro e he
      obtain ⟨f, hf, rfl⟩ := Element.mem_sortAll_iff.1 he
      obtain ⟨g, hg, -, rfl⟩ := Element.mem_compactAll_iff.1 hf
      exact (hfold g hg).compact.sortWithin

end RegisterMap
