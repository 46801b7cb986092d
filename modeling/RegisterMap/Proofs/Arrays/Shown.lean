import Mathlib
import RegisterMap.Proofs.Arrays.Steps
import RegisterMap.Proofs.Layout.Declarable
import RegisterMap.Proofs.Layout.Shown

/-!
# Folding keeps what is visible

An array is hidden if its first register is, whatever the others are. Where all registers that could
be one array are hidden or none is (`Arrays.Site.HidesAlike`), folding keeps the visible words and
the ends of elements, so that there is still a layout, and it declares the same words
(`Peripheral.layout_foldArrays`). Otherwise words vanish, or there is no layout any more
(`Peripheral.layout_foldArrays_mixed`).
-/

namespace RegisterMap

open Element

/-- What is true of a level, and inside of each cluster of it that is not hidden. -/
inductive Element.AtShownLevels (P : List Element → Prop) : List Element → Prop
  | intro {es : List Element} (here : P es)
      (inside : ∀ c fs, .cluster c fs ∈ es → c.flags.hidden = false → AtShownLevels P fs) :
      AtShownLevels P es

theorem Element.AtShownLevels.here {P : List Element → Prop} {es : List Element}
    (h : AtShownLevels P es) : P es := by
  obtain ⟨here, -⟩ := h
  exact here

theorem Element.AtShownLevels.inside {P : List Element → Prop} {es : List Element}
    (h : AtShownLevels P es) : ∀ c fs, .cluster c fs ∈ es → c.flags.hidden = false →
      AtShownLevels P fs := by
  obtain ⟨-, inside⟩ := h
  exact inside

theorem Element.AtShownLevels.of_subset {P : List Element → Prop} {es fs : List Element}
    (h : AtShownLevels P es) (hP : P es → P fs) (hsub : fs ⊆ es) : AtShownLevels P fs := by
  obtain ⟨here, inside⟩ := h
  exact ⟨hP here, fun c gs hc => inside c gs (hsub hc)⟩

namespace Arrays

variable {site : Site} {s : Seed} {r : Register} {n : Nat} {vs : List Register} {is : List String}
  {es fs : List Element}

/-- Of registers of the level that could be one array all are hidden, or none is. -/
def Site.HidesAlike (site : Site) (es : List Element) : Prop :=
  ∀ r s vs is, .register r ∈ es → site.seed? r = some s → s.Series 1 vs is →
    (∀ v ∈ vs, .register v ∈ es) → ∀ v ∈ vs, v.flags.hidden = r.flags.hidden

theorem Site.HidesAlike.of_subset (h : site.HidesAlike es) (hsub : fs ⊆ es) :
    site.HidesAlike fs :=
  fun r s vs is hr hs hseries hvs => h r s vs is (hsub hr) hs hseries fun v hv => hsub (hvs v hv)

/-- It is enough that registers whose names belong to the same array are all hidden, or none is. -/
theorem Site.HidesAlike.of_names (h : ∀ r v array i j, .register r ∈ es → .register v ∈ es →
    (ruleOf site.peripheral).split? r.name = some (array, i) →
    (ruleOf site.peripheral).split? v.name = some (array, j) →
    v.flags.hidden = r.flags.hidden) : site.HidesAlike es := by
  intro r s vs is hr hs hseries hvs v hv
  obtain ⟨-, -, -, hrule, hfirst⟩ := Site.seed?_eq_some hs
  rw [hrule] at hfirst
  have hnames : ∀ v ∈ vs, ∃ j, (ruleOf site.peripheral).split? v.name = some (s.array, j) :=
    hseries.forall_mem fun n v i htakes => by
      obtain ⟨w, hw, -, hsplit, -⟩ := Seed.takes?_eq_some htakes
      cases hw
      exact ⟨i, hrule ▸ hsplit⟩
  obtain ⟨j, hj⟩ := hnames v hv
  exact h r v s.array s.index j hr (hvs v hv) hfirst hj

/-! ## The place of a series -/

/-- A register that is taken is single, has the width of the first one, and lies at its place. -/
theorem Seed.place_of_takes? {v : Register} {i : String} (h : s.takes? n (.register v) = some i) :
    v.dim = none ∧ v.width = s.register.width ∧
      v.offset = s.register.offset + n * s.register.elementSize := by
  obtain ⟨w, hw, hsingle, -, hoffset, hequivalent⟩ := Seed.takes?_eq_some h
  cases hw
  simp only [Register.equivalent, Register.equivalentBody, Bool.and_eq_true, beq_iff_eq]
    at hequivalent
  exact ⟨(isSingle_iff.1 hsingle).2.2, hequivalent.1.1.1.1.1.1.symm, hoffset⟩

/-- Registers of a series that are visible have a word each, one behind the other. -/
theorem Seed.Series.shownAll (h : s.Series n vs is) (hvs : ∀ v ∈ vs, v.flags.hidden = false)
    (base : Nat) : shownAll base (vs.map .register) = (List.range' n is.length).map fun i =>
      (base + s.register.offset + i * s.register.elementSize, s.register.width) := by
  induction h with
  | nil => rfl
  | @cons n v vs i is takes _ ih =>
    obtain ⟨hv, hvs⟩ := List.forall_mem_cons.1 hvs
    obtain ⟨hdim, hwidth, hoffset⟩ := Seed.place_of_takes? takes
    rw [List.map_cons, Element.shownAll, ih hvs, shown, hv, if_neg Bool.false_ne_true, hdim, hwidth,
      hoffset, List.length_cons, List.range'_succ, List.map_cons]
    simp [Dim.countOf, Nat.add_assoc]

theorem shownAll_of_hidden (h : ∀ e ∈ es, e.flags.hidden = true) (base : Nat) :
    shownAll base es = [] := by
  rw [shownAll_eq_flatMap, List.flatMap_eq_nil_iff]
  exact fun e he => shown_of_hidden (h e he) base

/-- A series ends where an array of as many elements does. -/
theorem Seed.Series.extent (h : s.Series n vs is) :
    max (s.register.offset + n * s.register.elementSize) (extent (vs.map .register)) =
      s.register.offset + (n + is.length) * s.register.elementSize := by
  induction h with
  | nil n => simp [Element.extent]
  | @cons n v vs i is takes _ ih =>
    obtain ⟨hdim, hwidth, hoffset⟩ := Seed.place_of_takes? takes
    have hsize : v.elementSize = s.register.elementSize := by
      rw [Register.elementSize, hwidth, Register.elementSize]
    have hfin : (Element.register v).offset + (Element.register v).totalSize =
        s.register.offset + (n + 1) * s.register.elementSize := by
      show v.offset + v.totalSize = _
      rw [Register.totalSize_of_dim_none hdim, hoffset, hsize, Nat.succ_mul, Nat.add_assoc]
    have hle : n * s.register.elementSize ≤ (n + 1) * s.register.elementSize :=
      Nat.mul_le_mul_right _ (Nat.le_succ n)
    have hcount : n + (i :: is).length = n + 1 + is.length := by
      rw [List.length_cons]
      omega
    rw [List.map_cons, Element.extent, hfin, hcount, ← ih]
    omega

/-! ## Arrays -/

theorem Site.HidesAlike.hidden_eq (hs : site.seed? r = some s) (hseries : s.Series 1 vs is)
    (h : site.HidesAlike (.register r :: (vs.map .register ++ es))) :
    ∀ v ∈ vs, v.flags.hidden = r.flags.hidden :=
  h r s vs is List.mem_cons_self hs hseries fun _ hv =>
    List.mem_cons_of_mem _ (List.mem_append_left _ (List.mem_map_of_mem hv))

theorem subset_series (r : Register) (vs : List Register) (es : List Element) :
    es ⊆ .register r :: (vs.map .register ++ es) :=
  fun _ he => List.mem_cons_of_mem _ (List.mem_append_right _ he)

theorem visible_perm (h : es.Perm fs) : (visible es).Perm (visible fs) := h.filter _

theorem visible_subset (h : es ⊆ fs) : visible es ⊆ visible fs := List.filter_subset _ h

theorem forall_mem_visible_cons {P : Element → Prop} {e : Element} :
    (∀ f ∈ visible (e :: es), P f) ↔ (e.flags.hidden = false → P e) ∧ ∀ f ∈ visible es, P f := by
  simp only [mem_visible_iff, and_imp, List.forall_mem_cons]

theorem visible_cons (e : Element) (es : List Element) :
    visible (e :: es) = if e.flags.hidden then visible es else e :: visible es := by
  rw [visible, List.filter_cons]
  cases e.flags.hidden <;> rfl

/-- What is visible of a level with registers all of which are hidden or none is. -/
theorem visible_series (hvs : ∀ v ∈ vs, v.flags.hidden = r.flags.hidden) :
    visible (.register r :: (vs.map .register ++ es)) =
      if r.flags.hidden then visible es
      else .register r :: (vs.map .register ++ visible es) := by
  unfold visible
  cases hhidden : r.flags.hidden with
  | true =>
    have hnone : (vs.map Element.register).filter (!·.flags.hidden) = [] :=
      List.filter_eq_nil_iff.2 (List.forall_mem_map.2 fun v hv => by
        rw [flags, hvs v hv, hhidden]
        exact Bool.false_ne_true)
    rw [List.filter_cons_of_neg (by rw [flags, hhidden]; exact Bool.false_ne_true),
      List.filter_append, hnone]
    rfl
  | false =>
    have hall : (vs.map Element.register).filter (!·.flags.hidden) = vs.map .register :=
      List.filter_eq_self.2 (List.forall_mem_map.2 fun v hv => by
        rw [flags, hvs v hv, hhidden]
        rfl)
    rw [List.filter_cons_of_pos (by rw [flags, hhidden]; rfl), List.filter_append, hall]
    rfl

/-- The array shows what its registers showed, if all are hidden or none is. -/
theorem shown_toArray (hs : site.seed? r = some s) (hseries : s.Series 1 vs is)
    (hvs : ∀ v ∈ vs, v.flags.hidden = r.flags.hidden) (base : Nat) :
    (Element.register (s.toArray (s.index :: is))).shown base =
      (Element.register r).shown base ++ shownAll base (vs.map .register) := by
  obtain ⟨hsingle, rfl, -⟩ := Site.seed?_eq_some hs
  cases hhidden : s.register.flags.hidden with
  | true =>
    have hall : ∀ e ∈ vs.map Element.register, e.flags.hidden = true :=
      List.forall_mem_map.2 fun v hv => (hvs v hv).trans hhidden
    have hflags (is : List String) :
        (Element.register (s.toArray is)).flags.hidden = true := hhidden
    have hfirst : (Element.register s.register).flags.hidden = true := hhidden
    rw [shown_of_hidden (hflags _), shownAll_of_hidden hall, shown_of_hidden hfirst]
    rfl
  | false =>
    have hall : ∀ v ∈ vs, v.flags.hidden = false := fun v hv => (hvs v hv).trans hhidden
    have hflags (is : List String) : (s.toArray is).flags.hidden = false := hhidden
    rw [hseries.shownAll hall, shown, shown, hflags, hhidden, if_neg Bool.false_ne_true,
      if_neg Bool.false_ne_true, (isSingle_iff.1 hsingle).2.2]
    show (List.range (is.length + 1)).map _ = (List.range 1).map _ ++ _
    rw [List.range_eq_range', List.range'_succ, List.map_cons, List.range_one, List.map_singleton,
      Nat.zero_mul, Nat.zero_mul]
    rfl

/-- The array ends where the last of its registers does. -/
theorem fin_toArray (hs : site.seed? r = some s) (hseries : s.Series 1 vs is) :
    (Element.register (s.toArray (s.index :: is))).fin =
      max (Element.register r).fin (extent (vs.map .register)) := by
  obtain ⟨hsingle, rfl, -⟩ := Site.seed?_eq_some hs
  have hone : (Element.register s.register).fin =
      s.register.offset + 1 * s.register.elementSize := by
    rw [Nat.one_mul]
    exact congrArg (s.register.offset + ·)
      (Register.totalSize_of_dim_none (isSingle_iff.1 hsingle).2.2)
  rw [hone, hseries.extent, Nat.add_comm 1, Nat.mul_comm]
  rfl

theorem infix_fill {t : Template} (h : Piece.text "%s" ∈ t) (gs : Pattern.Groups) :
    Placeholder.mark <:+: (t.fill gs).toList := by
  obtain ⟨t, u, rfl⟩ := List.append_of_mem h
  rw [Template.fill, String.toList_ofList, List.flatMap_append, List.flatMap_cons,
    ← List.append_assoc]
  exact ⟨_, _, rfl⟩

/-- The rule of each peripheral puts a placeholder into names. -/
theorem mark_mem_ruleOf (peripheral : String) : .text "%s" ∈ (ruleOf peripheral).name := by
  unfold ruleOf ofPeripheral?
  cases hfind : rules.find? fun (names, _) => names.contains peripheral with
  | none => decide
  | some entry =>
    have hmem := List.mem_of_find?_eq_some hfind
    simp only [rules, List.mem_cons, List.not_mem_nil, or_false] at hmem
    rcases hmem with rfl | rfl | rfl <;> decide

/-- The name of an array has a placeholder. -/
theorem Site.isIn_array (hs : site.seed? r = some s) : Placeholder.isIn s.array = true := by
  obtain ⟨-, -, -, hrule, hsplit⟩ := Site.seed?_eq_some hs
  obtain ⟨gs, -, hfill, -⟩ := IndexRule.split?_eq_some hsplit
  rw [← hfill, Placeholder.isIn, Placeholder.occurs_iff_infix, hrule]
  exact infix_fill (mark_mem_ruleOf site.peripheral) gs

/-! ## Steps -/

theorem Site.Folds.shownAll (h : site.Folds es fs) (hes : AtShownLevels site.HidesAlike es)
    (base : Nat) : (shownAll base fs).Perm (shownAll base es) := by
  induction h generalizing base with
  | nil => exact .refl _
  | kept r _ ih =>
    exact (ih (hes.of_subset (·.of_subset (List.subset_cons_self _ _))
      (List.subset_cons_self _ _)) base).append_left _
  | @inside c es es' fs fs' _ _ ihInside ih =>
    rw [Element.shownAll, Element.shownAll]
    refine List.Perm.append ?_ (ih (hes.of_subset (·.of_subset (List.subset_cons_self _ _))
      (List.subset_cons_self _ _)) base)
    cases hhidden : c.flags.hidden with
    | true =>
      have hflags (gs : List Element) : (Element.cluster c gs).flags.hidden = true := hhidden
      rw [shown_of_hidden (hflags _), shown_of_hidden (hflags _)]
    | false =>
      rw [shown, shown, hhidden, if_neg Bool.false_ne_true, if_neg Bool.false_ne_true]
      exact List.Perm.flatMap_left _ fun i _ =>
        ihInside (hes.inside c es List.mem_cons_self hhidden) _
  | @array r s vs is es fs hs hr hseries hne _ ih =>
    have hsub := subset_series r vs es
    have hvs := Site.HidesAlike.hidden_eq hs hseries hes.here
    rw [Element.shownAll, Element.shownAll, shownAll_append, shown_toArray hs hseries hvs,
      List.append_assoc]
    exact ((ih (hes.of_subset (·.of_subset hsub) hsub) base).append_left _).append_left _
  | perm hbefore hafter _ ih =>
    have hsub := hbefore.subset
    exact (shownAll_perm base hafter).symm.trans
      ((ih (hes.of_subset (·.of_subset hsub) hsub) base).trans (shownAll_perm base hbefore))

theorem extent_cons (e : Element) (es : List Element) :
    extent (e :: es) = max e.fin (extent es) := rfl

theorem extent_append (es fs : List Element) :
    extent (es ++ fs) = max (extent es) (extent fs) := by
  induction es with
  | nil => simp [extent]
  | cons e es ih => rw [List.cons_append, extent_cons, extent_cons, ih, Nat.max_assoc]

/-- A cluster ends where it ends with other elements that end there. -/
theorem fin_cluster (c : Cluster) {es fs : List Element} (h : extent fs = extent es) :
    (Element.cluster c fs).fin = (Element.cluster c es).fin := by
  unfold fin totalSize
  rw [h]
  rfl

/-- Folding leaves the end of a level where it is. -/
theorem Site.Folds.extent (h : site.Folds es fs) : extent fs = extent es := by
  induction h with
  | nil => rfl
  | kept r _ ih => rw [extent_cons, extent_cons, ih]
  | inside c _ _ ihInside ih => rw [extent_cons, extent_cons, fin_cluster c ihInside, ih]
  | array hs _ hseries _ _ ih =>
    rw [extent_cons, extent_cons, extent_append, fin_toArray hs hseries, ih, Nat.max_assoc]
  | perm hbefore hafter _ ih => rw [← extent_perm hafter, ih, extent_perm hbefore]

/-- Folding leaves the end of what is visible of a level where it is. -/
theorem Site.Folds.extent_visible (h : site.Folds es fs) (hes : site.HidesAlike es) :
    Element.extent (visible fs) = Element.extent (visible es) := by
  have hcons {e f : Element} {es fs : List Element} (hflags : f.flags.hidden = e.flags.hidden)
      (hfin : f.fin = e.fin) (h : Element.extent (visible fs) = Element.extent (visible es)) :
      Element.extent (visible (f :: fs)) = Element.extent (visible (e :: es)) := by
    rw [visible_cons, visible_cons, hflags]
    split
    · exact h
    · rw [extent_cons, extent_cons, hfin, h]
  induction h with
  | nil => rfl
  | kept r _ ih => exact hcons rfl rfl (ih (hes.of_subset (List.subset_cons_self _ _)))
  | inside c hinside _ _ ih =>
    exact hcons rfl (fin_cluster c hinside.extent) (ih (hes.of_subset (List.subset_cons_self _ _)))
  | @array r s vs is es fs hs hr hseries hne _ ih =>
    have ih := ih (hes.of_subset (subset_series r vs es))
    have hflags : (Element.register (s.toArray (s.index :: is))).flags.hidden = r.flags.hidden := by
      obtain ⟨-, rfl, -⟩ := Site.seed?_eq_some hs
      rfl
    rw [visible_series (Site.HidesAlike.hidden_eq hs hseries hes), visible_cons, hflags]
    split
    · exact ih
    · rw [extent_cons, extent_cons, extent_append, fin_toArray hs hseries, ih, Nat.max_assoc]
  | perm hbefore hafter _ ih =>
    rw [← extent_perm (visible_perm hafter), ← extent_perm (visible_perm hbefore)]
    exact ih (hes.of_subset hbefore.subset)

/-- What folding leaves visible can be declared if what was visible could be. -/
theorem Site.Folds.isDeclarable (h : site.Folds es fs) (hes : AtShownLevels site.HidesAlike es)
    (hdeclarable : ∀ e ∈ visible es, e.IsDeclarable) : ∀ f ∈ visible fs, f.IsDeclarable := by
  induction h with
  | nil => exact hdeclarable
  | @kept r es fs _ ih =>
    have hsub := List.subset_cons_self (.register r) es
    obtain ⟨hhead, htail⟩ := forall_mem_visible_cons.1 hdeclarable
    exact forall_mem_visible_cons.2 ⟨hhead, ih (hes.of_subset (·.of_subset hsub) hsub) htail⟩
  | @inside c es es' fs fs' hinside _ ihInside ih =>
    have hsub := List.subset_cons_self (.cluster c es) es'
    obtain ⟨hhead, htail⟩ := forall_mem_visible_cons.1 hdeclarable
    refine forall_mem_visible_cons.2
      ⟨fun hvisible => ?_, ih (hes.of_subset (·.of_subset hsub) hsub) htail⟩
    have hlevel : AtShownLevels site.HidesAlike es :=
      hes.inside c es List.mem_cons_self hvisible
    have hchildren := isDeclarable_cluster_iff.1 (hhead hvisible)
    have hfolded := ihInside hlevel fun e he => (hchildren e he).1
    refine isDeclarable_cluster_iff.2 fun f hf => ⟨hfolded f hf, fun d hd => ?_⟩
    have hend := extent_le_iff.2 fun e he => (hchildren e he).2 d hd
    rw [← hinside.extent_visible hlevel.here] at hend
    exact extent_le_iff.1 hend f hf
  | @array r s vs is es fs hs hr hseries hne _ ih =>
    have hsub := subset_series r vs es
    refine forall_mem_visible_cons.2 ⟨fun _ => ?_, ih (hes.of_subset (·.of_subset hsub) hsub)
      fun e he => hdeclarable e (visible_subset hsub he)⟩
    refine isDeclarable_register_iff.2 (.inr (.inr ⟨Site.isIn_array hs, fun d hd => ?_⟩))
    cases hd
    exact Nat.le_refl _
  | perm hbefore hafter _ ih =>
    have hsub := hbefore.subset
    exact fun f hf => ih (hes.of_subset (·.of_subset hsub) hsub)
      (fun e he => hdeclarable e ((visible_perm hbefore).subset he)) f
      ((visible_perm hafter).symm.subset hf)

end Arrays

namespace Peripheral

/-- **Folding and layout.** A peripheral with a layout still has one after folding that came to its
end, with the same words, each as often as before: if at each level that is visible, all registers
that could be one array are hidden or none is. -/
theorem layout_foldArrays {p : Peripheral} {cmp : Comparison} {ds : List Decl}
    (hp : p.derivedFrom = none) (hintact : isIntactAll p.registers = true)
    (halike : AtShownLevels (Arrays.Site.HidesAlike ⟨p.name, cmp⟩) p.registers)
    (hlayout : layout p.registers = .ok ds) (h : (p.foldArrays cmp).failure = none) :
    ∃ ds', layout (p.foldArrays cmp).state.registers = .ok ds' ∧
      (Decl.wordsAll 0 ds').Perm (Decl.wordsAll 0 ds) := by
  have hfolds := folds_foldArrays hp hintact h
  obtain ⟨ds', hlayout'⟩ :=
    layout_isOk_iff.2 (hfolds.isDeclarable halike (layout_isOk_iff.1 ⟨ds, hlayout⟩))
  exact ⟨ds', hlayout', (layout_words hlayout' 0).trans
    ((hfolds.shownAll halike 0).trans (layout_words hlayout 0).symm)⟩

section Example

private def concealed (name : String) (offset : Nat) : Element :=
  .register { Register.plain name offset 32 with flags := { hidden := true } }

/-- Two registers, two hidden ones behind them, and a pair of channels with two registers each. -/
private def curtained : Peripheral :=
  { name := "P", baseAddress := 0,
    registers := [.register (.plain "D0" 0 32), .register (.plain "D1" 4 32),
      concealed "K0" 8, concealed "K1" 12,
      .cluster { name := "CH%s", offset := 16, dim := some (.counted 8 2) }
        [.register (.plain "S0" 0 32), .register (.plain "S1" 4 32)]] }

private theorem atShownLevels_curtained :
    AtShownLevels (Arrays.Site.HidesAlike ⟨"P", {}⟩) curtained.registers := by
  -- what is in the array of `K` is hidden, and nothing else
  have hnames : ∀ r, .register r ∈ curtained.registers → r.flags.hidden =
      (((Arrays.ruleOf "P").split? r.name).map Prod.fst == some "K%s") := by
    intro r hr
    simp only [curtained, concealed, List.mem_cons, Element.register.injEq, reduceCtorEq,
      List.not_mem_nil, or_false] at hr
    rcases hr with rfl | rfl | rfl | rfl <;> cbv
  have hsamples : ∀ r, .register r ∈
      [Element.register (.plain "S0" 0 32), .register (.plain "S1" 4 32)] →
        r.flags.hidden = false := by
    intro r hr
    simp only [List.mem_cons, Element.register.injEq, List.not_mem_nil, or_false] at hr
    rcases hr with rfl | rfl <;> rfl
  refine .intro (.of_names fun r v array i j hr hv hri hvj => ?_) fun c fs hc _ => ?_
  · rw [hnames r hr, hnames v hv, hri, hvj]
    rfl
  · simp only [curtained, concealed, List.mem_cons, reduceCtorEq, Element.cluster.injEq,
      List.not_mem_nil, or_false, false_or] at hc
    obtain ⟨rfl, rfl⟩ := hc
    refine .intro (.of_names fun r v array i j hr hv _ _ => ?_) fun c gs hc => ?_
    · rw [hsamples r hr, hsamples v hv]
    · simp at hc

theorem layout_foldArrays_curtained :
    curtained.derivedFrom = none ∧ isIntactAll curtained.registers = true ∧
      AtShownLevels (Arrays.Site.HidesAlike ⟨curtained.name, {}⟩) curtained.registers ∧
      (curtained.foldArrays {}).failure = none ∧
      (registersAll (curtained.foldArrays {}).state.registers).map Register.name =
        ["D%s", "K%s", "S%s"] ∧
      ∃ ds ds', layout curtained.registers = .ok ds ∧
        layout (curtained.foldArrays {}).state.registers = .ok ds' ∧
        (Decl.wordsAll 0 ds').Perm
          [(0, 32), (4, 32), (16, 32), (20, 32), (24, 32), (28, 32)] := by
  have hdone : (curtained.foldArrays {}).failure = none := by cbv
  have hlayout : ∃ ds, layout curtained.registers = .ok ds := ⟨_, by cbv⟩
  obtain ⟨ds, hds⟩ := hlayout
  obtain ⟨ds', hds', hperm⟩ := layout_foldArrays rfl rfl atShownLevels_curtained hds hdone
  exact ⟨rfl, rfl, atShownLevels_curtained, hdone, by cbv, ds, ds', hds, hds',
    hperm.trans (layout_words hds 0)⟩

/-- A hidden register and one behind it that is not. -/
private def unveiled : Peripheral :=
  { name := "P", baseAddress := 0,
    registers := [concealed "D0" 0, .register (.plain "D1" 4 32)] }

/-- Channels that have room for one register, with a hidden one behind it. -/
private def cramped : Peripheral :=
  { name := "P", baseAddress := 0,
    registers := [.cluster { name := "CH%s", dim := some (.counted 4 2) }
      [.register (.plain "D0" 0 32), concealed "D1" 4]] }

/-- A visible register is hidden by an array, or a hidden one shown, for which there may not be
room. -/
theorem layout_foldArrays_mixed :
    (unveiled.derivedFrom = none ∧ isIntactAll unveiled.registers = true ∧
      (unveiled.foldArrays {}).failure = none ∧
      layout unveiled.registers = .ok [.reserved 0 4, .register (.plain "D1" 4 32) 4] ∧
      layout (unveiled.foldArrays {}).state.registers = .ok []) ∧
    (cramped.foldArrays {}).failure = none ∧ (∃ ds, layout cramped.registers = .ok ds) ∧
      ¬∃ ds, layout (cramped.foldArrays {}).state.registers = .ok ds := by
  have hfails : layout (cramped.foldArrays {}).state.registers = fail (.tooComplex "CH%s") := by cbv
  refine ⟨⟨rfl, rfl, by cbv, by cbv, by cbv⟩, by cbv, ⟨_, by cbv⟩, ?_⟩
  rw [hfails]
  rintro ⟨ds, hds⟩
  cases hds

end Example

end Peripheral

end RegisterMap
