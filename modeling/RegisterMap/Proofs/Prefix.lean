import Mathlib.Data.List.TakeWhile
import RegisterMap.Proofs.Sorting
import RegisterMap.Reduction.CommonPrefix

/-!
# Taking a common part of names twice

What is left of the names has no common part any more, or the peripheral has the part that was
taken (`Peripheral.HasNoPrefix`), so that taking it a second time changes nothing. Names without
their common part stand in the order they had.
-/

namespace RegisterMap

namespace CommonPrefix

theorem shared_append (common a b : List Char) :
    shared (common ++ a) (common ++ b) = common ++ shared a b := by
  induction common with
  | nil => rfl
  | cons c common ih => rw [List.cons_append, List.cons_append, shared, if_pos rfl, ih]; rfl

theorem foldl_shared_append (common n : List Char) (ns : List (List Char)) :
    (ns.map (common ++ ·)).foldl shared (common ++ n) = common ++ ns.foldl shared n := by
  induction ns generalizing n with
  | nil => rfl
  | cons m ms ih => rw [List.map_cons, List.foldl_cons, shared_append, ih, List.foldl_cons]

/-- Names without all that they share share nothing. -/
theorem sharedByAll_drop (ns : List (List Char)) :
    sharedByAll (ns.map (List.drop (sharedByAll ns).length)) = [] := by
  cases ns with
  | nil => rfl
  | cons n ns =>
    generalize hcommon : sharedByAll (n :: ns) = common
    have hdrop : ∀ m ∈ n :: ns, common ++ m.drop common.length = m := fun m hm =>
      List.prefix_iff_eq_append.1 (hcommon ▸ sharedByAll_isPrefix hm)
    have hnames : (ns.map (List.drop common.length)).map (common ++ ·) = ns := by
      rw [List.map_map]
      refine (List.map_congr_left fun m hm => ?_).trans (List.map_id ns)
      exact hdrop m (List.mem_cons_of_mem _ hm)
    have happend := foldl_shared_append common (n.drop common.length)
      (ns.map (List.drop common.length))
    rw [hnames, hdrop n List.mem_cons_self] at happend
    have hself : common = common ++ sharedByAll ((n :: ns).map (List.drop common.length)) :=
      hcommon.symm.trans happend
    exact List.self_eq_append_right.1 hself

/-- A part that consists of underscores only is all that the names share. -/
theorem cutAtUnderscore_eq_of_trim {s : List Char}
    (h : trimUnderscores (cutAtUnderscore s) = []) : cutAtUnderscore s = s := by
  have hall : ∀ c ∈ cutAtUnderscore s, c = '_' := by
    unfold trimUnderscores at h
    rw [List.reverse_eq_nil_iff] at h
    intro c hc
    simpa using List.dropWhile_eq_nil_iff.1 h c (List.mem_reverse.2 hc)
  unfold cutAtUnderscore at hall ⊢
  simp only at hall ⊢
  split
  · rfl
  · rename_i hcut
    rw [if_neg hcut] at hall
    cases hhead : s.takeWhile (· != '_') with
    | nil => simp [hhead] at hcut
    | cons c cs =>
      have hc : c = '_' := hall c (by simp [hhead])
      have hnot := List.all_eq_true.1 (List.all_takeWhile (p := (· != '_')) (l := s)) c
        (by simp [hhead])
      simp [hc] at hnot

/-- The cut keeps the beginning. -/
theorem cutAtUnderscore_isPrefix (s : List Char) : cutAtUnderscore s <+: s := by
  unfold cutAtUnderscore
  simp only
  split
  · exact List.prefix_rfl
  · rename_i hcut
    have happend := List.takeWhile_append_dropWhile (p := (· != '_')) (l := s)
    cases hrest : s.dropWhile (· != '_') with
    | nil =>
      rw [hrest, List.append_nil] at happend
      simp [happend] at hcut
    | cons c cs =>
      have hc : c = '_' := by
        have hstop := List.head?_dropWhile_not (· != '_') s
        rw [hrest] at hstop
        simpa using hstop
      rw [hrest, hc] at happend
      exact ⟨cs, by rw [List.append_assoc]; exact happend⟩

theorem ofNames_isPrefix {n : List Char} {names : List (List Char)} (h : n ∈ names) :
    ofNames names <+: n :=
  (cutAtUnderscore_isPrefix _).trans (sharedByAll_isPrefix h)

theorem not_isRemovable_nil (names : List (List Char)) : isRemovable [] names = false := rfl

end CommonPrefix

namespace Peripheral

open CommonPrefix

/-- The names of the elements. -/
def elementNames (p : Peripheral) : List (List Char) := p.registers.map fun e => e.name.toList

/-- The peripheral has a common part already, or its elements have none to take. -/
def HasNoPrefix (p : Peripheral) : Prop :=
  p.prependToName.any (!·.isEmpty) = true ∨
    isRemovable (ofNames p.elementNames) p.elementNames = false

theorem extractPrefix_of_hasNoPrefix {p : Peripheral} (h : p.HasNoPrefix)
    (conflicts : List String) :
    Workpiece.extractPrefix ⟨p, conflicts⟩ = .pure ⟨p, conflicts⟩ := by
  apply if_pos
  rcases h with h | h
  · rw [h, Bool.true_or]
  · show (_ || !isRemovable (ofNames p.elementNames) p.elementNames) = true
    rw [h, Bool.not_false, Bool.or_true]

/-- Otherwise the common part is taken, and the peripheral is described at least by its name. -/
theorem extractPrefix_of_not_hasNoPrefix {w : Workpiece} (h : ¬ w.peripheral.HasNoPrefix) :
    w.extractPrefix.failure = none ∧ ∃ description, w.extractPrefix.state.peripheral =
      { w.peripheral.takePrefix (ofNames w.peripheral.elementNames) with description } := by
  have htake : ¬ (w.peripheral.prependToName.any (!·.isEmpty) ||
      !isRemovable (ofNames (w.peripheral.registers.map fun e => e.name.toList))
        (w.peripheral.registers.map fun e => e.name.toList)) = true := by
    rw [Bool.or_eq_true, Bool.not_eq_true']
    exact h
  unfold Workpiece.extractPrefix
  simp only
  rw [if_neg htake]
  split
  · exact ⟨rfl, _, rfl⟩
  · exact ⟨rfl, _, rfl⟩

theorem elementNames_takePrefix (p : Peripheral) (common : List Char) :
    (p.takePrefix common).elementNames = p.elementNames.map (List.drop common.length) := by
  simp only [elementNames, takePrefix, List.map_map]
  apply List.map_congr_left
  intro e _
  simp only [Function.comp, Element.name_withName, String.toList_ofList]

/-- Once the common part is taken, there is none to take. -/
theorem hasNoPrefix_takePrefix (p : Peripheral) :
    (p.takePrefix (ofNames p.elementNames)).HasNoPrefix := by
  by_cases htrim : trimUnderscores (ofNames p.elementNames) = []
  · right
    have hall : ofNames p.elementNames = sharedByAll p.elementNames :=
      cutAtUnderscore_eq_of_trim htrim
    have hnone : ofNames (p.takePrefix (ofNames p.elementNames)).elementNames = [] := by
      rw [elementNames_takePrefix, hall, ofNames, sharedByAll_drop]
      rfl
    rw [hnone, not_isRemovable_nil]
  · left
    simpa [takePrefix] using htrim

theorem HasNoPrefix.congr {p q : Peripheral} (h : p.HasNoPrefix)
    (hprepend : q.prependToName = p.prependToName) (hnames : q.elementNames = p.elementNames) :
    q.HasNoPrefix := by
  unfold HasNoPrefix
  rw [hprepend, hnames]
  exact h

/-- Elements in their places have their names. -/
theorem elementNames_of_samePlace {p q : Peripheral}
    (h : List.Forall₂ Element.SamePlace p.registers q.registers) :
    q.elementNames = p.elementNames := by
  unfold elementNames
  generalize p.registers = es at h
  generalize q.registers = fs at h
  induction h with
  | nil => rfl
  | cons he _ ih => rw [List.map_cons, List.map_cons, he.name_eq, ih]

/-! ## The order of the names -/

theorem append_lt_append_iff (common a b : List Char) : common ++ a < common ++ b ↔ a < b := by
  induction common with
  | nil => exact Iff.rfl
  | cons c common ih =>
    rw [List.cons_append, List.cons_append, List.cons_lt_cons_iff, ih]
    simp

theorem compare_append (common a b : List Char) :
    compare (String.ofList (common ++ a)) (String.ofList (common ++ b)) =
      compare (String.ofList a) (String.ofList b) := by
  have hlt : String.ofList (common ++ a) < String.ofList (common ++ b) ↔
      String.ofList a < String.ofList b := by
    rw [String.lt_iff, String.lt_iff, String.toList_ofList, String.toList_ofList,
      String.toList_ofList, String.toList_ofList, append_lt_append_iff]
  have heq : String.ofList (common ++ a) = String.ofList (common ++ b) ↔
      String.ofList a = String.ofList b := by
    rw [← String.toList_inj, ← String.toList_inj, String.toList_ofList, String.toList_ofList,
      String.toList_ofList, String.toList_ofList, List.append_cancel_left_eq]
  show compareOfLessAndEq _ _ = compareOfLessAndEq _ _
  unfold compareOfLessAndEq
  simp only [hlt, heq]

open Element in
/-- Elements in order stay so when their names lose what all of them share. -/
theorem sortAll_takePrefix {p : Peripheral} {common : List Char}
    (hcommon : ∀ n ∈ p.elementNames, common <+: n) (h : sortAll p.registers = p.registers) :
    sortAll (p.takePrefix common).registers = (p.takePrefix common).registers := by
  obtain ⟨hordered, hwithin⟩ := sortAll_eq_self_iff.1 h
  have hname : ∀ e ∈ p.registers,
      e.name = String.ofList (common ++ e.name.toList.drop common.length) := by
    intro e he
    have hprefix := hcommon e.name.toList (List.mem_map.2 ⟨e, he, rfl⟩)
    rw [List.prefix_iff_eq_append.1 hprefix, String.ofList_toList]
  refine sortAll_eq_self_iff.2 ⟨?_, fun f hf => ?_⟩
  · refine List.pairwise_map.2 (hordered.imp_of_mem fun {e f} he hf hef => ?_)
    unfold precedes order at hef ⊢
    rw [hname e he, hname f hf, compare_append] at hef
    simpa only [offset_withName, totalSize_withName, name_withName] using hef
  · obtain ⟨e, he, rfl⟩ := List.mem_map.1 hf
    have he := hwithin e he
    cases e with
    | register r => rfl
    | cluster c es =>
      rw [sortWithin] at he
      rw [withName, sortWithin, (Element.cluster.inj he).2]

end Peripheral

end RegisterMap
