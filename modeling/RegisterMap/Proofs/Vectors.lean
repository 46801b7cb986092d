import Mathlib.Data.List.Induction
import Mathlib.Data.List.Nodup
import RegisterMap.Device
import RegisterMap.Proofs.Success

/-!
# Vector tables

Entries are added to a vector table index by index: what is under an index depends on the entries
of that index only (`VectorTable.addAll_eq_ok_iff`). A device whose vectors were collected keeps
its table when they are collected once more (`Device.collectVectors_collectVectors`), unless an
entry without owners was merged with an interrupt of a peripheral.
-/

namespace RegisterMap

/-- An entry whose key is the last is put behind the others. -/
theorem Vectors.put_eq_append {k : Int} {i : Interrupt} {es : List (Int × Interrupt)}
    (h : ∀ e ∈ es, e.1 < k) : put k i es = es ++ [(k, i)] := by
  induction es with
  | nil => rfl
  | cons e es ih =>
    obtain ⟨j, old⟩ := e
    obtain ⟨hj, hes⟩ := List.forall_mem_cons.1 h
    have hlt : ¬k < j := by omega
    have hne : ¬k = j := by omega
    rw [put, if_neg hlt, if_neg hne, ih hes, List.cons_append]

namespace Interrupt

/-- The entry that is under an index after one more was added there. -/
def merge (old : Option Interrupt) (new : Interrupt) : Except Failure Interrupt :=
  match old with
  | none => .ok new
  | some old =>
    if old.name = new.name then .ok (old.absorb new)
    else fail (.interruptRenamed new.index old.name new.name)

/-- The entry that is under an index after others were added there. -/
def mergeAll : Option Interrupt → List Interrupt → Except Failure (Option Interrupt)
  | old, [] => .ok old
  | old, i :: is => do
    let new ← merge old i
    mergeAll (some new) is

theorem merge_ok {P : Interrupt → Prop} (habsorb : ∀ a b, P a → P b → P (a.absorb b))
    {old : Option Interrupt} {i j : Interrupt} (hold : ∀ a, old = some a → P a) (hi : P i)
    (h : merge old i = .ok j) : P j := by
  cases old with
  | none =>
    cases h
    exact hi
  | some a =>
    by_cases hname : a.name = i.name
    · simp only [merge, if_pos hname] at h
      cases h
      exact habsorb a i (hold a rfl) hi
    · simp only [merge, if_neg hname] at h
      cases h

/-- What holds of the entries and is kept by taking over owners holds of the merged entry. -/
theorem mergeAll_ok {P : Interrupt → Prop} (habsorb : ∀ a b, P a → P b → P (a.absorb b))
    {old : Option Interrupt} {is : List Interrupt} {j : Interrupt}
    (hold : ∀ a, old = some a → P a) (his : ∀ i ∈ is, P i)
    (h : mergeAll old is = .ok (some j)) : P j := by
  induction is generalizing old with
  | nil => exact hold j (Except.ok.inj h)
  | cons i is ih =>
    obtain ⟨a, ha, h⟩ := bind_eq_ok.1 h
    obtain ⟨hi, his⟩ := List.forall_mem_cons.1 his
    refine ih (fun b hb => ?_) his h
    cases hb
    exact merge_ok habsorb hold hi ha

theorem isSome_mergeAll {old r : Option Interrupt} {is : List Interrupt}
    (h : mergeAll old is = .ok r) (hsome : old.isSome = true ∨ is ≠ []) : r.isSome = true := by
  induction is generalizing old with
  | nil =>
    cases h
    exact hsome.resolve_right fun hne => hne rfl
  | cons i is ih =>
    obtain ⟨a, -, h⟩ := bind_eq_ok.1 h
    exact ih h (.inl rfl)

/-- The entry has no owner. -/
def isUnowned (i : Interrupt) : Bool := i.peripherals.isEmpty

theorem isUnowned_absorb {a b : Interrupt} (ha : a.isUnowned = true) (hb : b.isUnowned = true) :
    (a.absorb b).isUnowned = true := by
  have ha : a.peripherals = [] := List.isEmpty_iff.1 ha
  have hb : b.peripherals = [] := List.isEmpty_iff.1 hb
  simp [isUnowned, absorb, ha, hb]

/-- Owners stay. -/
theorem not_isUnowned_absorb {a b : Interrupt} (ha : a.isUnowned = false) :
    (a.absorb b).isUnowned = false := by
  have hkeep (new old : List String) (h : old ≠ []) :
      new.foldl (fun ps p => if ps.contains p then ps else ps ++ [p]) old ≠ [] := by
    induction new generalizing old with
    | nil => exact h
    | cons p new ih =>
      rw [List.foldl_cons]
      apply ih
      split
      · exact h
      · simp
  have ha : a.peripherals ≠ [] := fun h => by simp [isUnowned, h] at ha
  have hb := hkeep b.peripherals a.peripherals ha
  simpa [isUnowned, absorb] using hb

theorem not_isUnowned_ownedBy (p : String) (i : Interrupt) : (i.ownedBy p).isUnowned = false := by
  unfold ownedBy
  split
  · rename_i h
    have hne : i.peripherals ≠ [] := fun hnil => by simp [hnil] at h
    simpa [isUnowned] using hne
  · simp [isUnowned]

/-- The entries of an index. -/
def atIndex (k : Int) (is : List Interrupt) : List Interrupt := is.filter (·.index == k)

theorem index_of_mem_atIndex {k : Int} {is : List Interrupt} {i : Interrupt}
    (h : i ∈ atIndex k is) : i ∈ is ∧ i.index = k := by
  simpa [atIndex] using h

theorem atIndex_cons_self (i : Interrupt) (is : List Interrupt) :
    atIndex i.index (i :: is) = i :: atIndex i.index is := by simp [atIndex]

theorem atIndex_cons_of_ne {k : Int} {i : Interrupt} (h : i.index ≠ k) (is : List Interrupt) :
    atIndex k (i :: is) = atIndex k is := by simp [atIndex, h]

theorem atIndex_eq_nil {k : Int} {is : List Interrupt} (h : ∀ i ∈ is, i.index ≠ k) :
    atIndex k is = [] :=
  List.filter_eq_nil_iff.2 fun i hi => by simpa using h i hi

end Interrupt

namespace VectorTable

open Interrupt

/-! ## Tables by index -/

theorem mem_entries_iff {t : VectorTable} {k : Int} {i : Interrupt} :
    (k, i) ∈ t.entries ↔ t.get? k = some i := by
  obtain ⟨es, hsorted⟩ := t
  show (k, i) ∈ es ↔ es.lookup k = some i
  induction es with
  | nil => simp
  | cons e es ih =>
    obtain ⟨j, old⟩ := e
    obtain ⟨hhead, htail⟩ := List.pairwise_cons.1 hsorted
    rw [List.mem_cons, List.lookup_cons, ih htail]
    by_cases hk : k = j
    · subst hk
      have habsent : es.lookup k ≠ some i := fun h =>
        absurd (hhead _ ((ih htail).2 h)) (Int.lt_irrefl k)
      simp [habsent, eq_comm]
    · have hb : (k == j) = false := beq_eq_false_iff_ne.2 hk
      simp [hk, hb]

/-- Tables with the same entries under each index are the same. -/
theorem ext_get? {t u : VectorTable} (h : ∀ k, t.get? k = u.get? k) : t = u := by
  have hnodup (t : VectorTable) : t.entries.Nodup :=
    t.sorted.imp fun hab heq => Int.ne_of_lt hab (congrArg Prod.fst heq)
  have hperm : t.entries.Perm u.entries := by
    refine (List.perm_ext_iff_of_nodup (hnodup t) (hnodup u)).2 fun ⟨k, i⟩ => ?_
    rw [mem_entries_iff, mem_entries_iff, h]
  have hentries : t.entries = u.entries :=
    hperm.eq_of_pairwise (fun a b _ _ hab hba => absurd hba (Int.lt_asymm hab)) t.sorted u.sorted
  cases t
  cases u
  congr

theorem add_eq (t : VectorTable) (i : Interrupt) :
    t.add i = (merge (t.get? i.index) i).map (t.insert i.index) := by
  unfold add merge
  cases t.get? i.index with
  | none => rfl
  | some old =>
    simp only
    split <;> rfl

theorem toExcept_addAll_cons (t : VectorTable) (i : Interrupt) (is : List Interrupt) :
    (t.addAll (i :: is)).toExcept = t.add i >>= fun u => (u.addAll is).toExcept := by
  unfold addAll
  rw [List.foldl_cons, Outcome.toExcept_foldl_andThen, Outcome.pure_andThen,
    Outcome.toExcept_ofExcept]

/-- An entry that was merged at its index counts there, and nowhere else. -/
theorem mergeAll_atIndex_cons {t : VectorTable} {i j : Interrupt}
    (h : merge (t.get? i.index) i = .ok j) (k : Int) (is : List Interrupt) :
    mergeAll (t.get? k) (atIndex k (i :: is)) =
      mergeAll ((t.insert i.index j).get? k) (atIndex k is) := by
  by_cases hk : k = i.index
  · subst hk
    rw [atIndex_cons_self, mergeAll, h, get?_insert_self]
    rfl
  · rw [atIndex_cons_of_ne (Ne.symm hk), get?_insert_of_ne t hk]

/-- **Adding entries.** It succeeds when the entries of each index can be merged, and then each
index has its merged entry. -/
theorem addAll_eq_ok_iff {t u : VectorTable} {is : List Interrupt} :
    (t.addAll is).toExcept = .ok u ↔
      ∀ k, mergeAll (t.get? k) (atIndex k is) = .ok (u.get? k) := by
  induction is generalizing t with
  | nil =>
    constructor
    · intro h k
      cases h
      rfl
    · intro h
      have htu : t = u := ext_get? fun k => Except.ok.inj (h k)
      rw [htu]
      rfl
  | cons i is ih =>
    rw [toExcept_addAll_cons, add_eq]
    cases hmerge : merge (t.get? i.index) i with
    | error f =>
      -- the entry is refused, by the table and at its index
      have hrefused : mergeAll (t.get? i.index) (atIndex i.index (i :: is)) = .error f := by
        rw [atIndex_cons_self, mergeAll, hmerge]
        rfl
      constructor
      · intro h
        cases h
      · intro h
        cases hrefused.symm.trans (h i.index)
    | ok j =>
      simp only [mergeAll_atIndex_cons hmerge]
      exact ih

/-- What holds of the entries and is kept by taking over owners holds when entries were added. -/
theorem forall_entries_addAll {P : Interrupt → Prop} (habsorb : ∀ a b, P a → P b → P (a.absorb b))
    {t u : VectorTable} {is : List Interrupt} (ht : ∀ e ∈ t.entries, P e.2) (his : ∀ i ∈ is, P i)
    (h : (t.addAll is).toExcept = .ok u) : ∀ e ∈ u.entries, P e.2 := by
  intro e he
  have hmerge := addAll_eq_ok_iff.1 h e.1
  rw [mem_entries_iff.1 he] at hmerge
  exact mergeAll_ok habsorb (fun a ha => ht (e.1, a) (mem_entries_iff.2 ha))
    (fun i hi => his i (index_of_mem_atIndex hi).1) hmerge

/-- Every entry is under its own index. -/
def IsKeyed (t : VectorTable) : Prop := ∀ k i, t.get? k = some i → i.index = k

theorem isKeyed_addAll {t u : VectorTable} {is : List Interrupt} (ht : t.IsKeyed)
    (h : (t.addAll is).toExcept = .ok u) : u.IsKeyed := by
  intro k j hj
  have hmerge := addAll_eq_ok_iff.1 h k
  rw [hj] at hmerge
  exact mergeAll_ok (fun a b ha _ => ha) (fun a ha => ht k a ha)
    (fun i hi => (index_of_mem_atIndex hi).2) hmerge

theorem isKeyed_empty : empty.IsKeyed := nofun

/-! ## Tables of interrupts in order -/

/-- The table of interrupts, each under its index. -/
def ofList (is : List Interrupt) : VectorTable := is.foldl (fun t i => t.insert i.index i) empty

/-- Interrupts in the order of their indexes are the entries of their table. -/
theorem entries_ofList {is : List Interrupt} (h : is.Pairwise fun a b => a.index < b.index) :
    (ofList is).entries = is.map fun i => (i.index, i) := by
  induction is using List.reverseRecOn with
  | nil => rfl
  | append_singleton is i ih =>
    obtain ⟨his, -, hlast⟩ := List.pairwise_append.1 h
    rw [ofList, List.foldl_append]
    change Vectors.put i.index i (ofList is).entries = _
    rw [ih his, Vectors.put_eq_append, List.map_append, List.map_singleton]
    intro e he
    obtain ⟨j, hj, rfl⟩ := List.mem_map.1 he
    exact hlast j hj i List.mem_cons_self

theorem get?_ofList_eq_none {is : List Interrupt} {k : Int}
    (h : is.Pairwise fun a b => a.index < b.index) (hk : ∀ i ∈ is, i.index < k) :
    (ofList is).get? k = none := by
  rw [get?, entries_ofList h, List.lookup_eq_none_iff]
  intro e he
  obtain ⟨i, hi, rfl⟩ := List.mem_map.1 he
  have := hk i hi
  simp
  omega

/-- An interrupt behind those of a table in order is added to them. -/
theorem add_ofList {is : List Interrupt} {i : Interrupt}
    (h : (is ++ [i]).Pairwise fun a b => a.index < b.index) :
    (ofList is).add i = .ok (ofList (is ++ [i])) := by
  obtain ⟨his, -, hlast⟩ := List.pairwise_append.1 h
  have hnone := get?_ofList_eq_none his fun j hj => hlast j hj i List.mem_cons_self
  rw [add, hnone, ofList, ofList, List.foldl_append]
  rfl

/-- The table of interrupts, if there are any. -/
def ofList? (is : List Interrupt) : Option VectorTable :=
  if is.isEmpty then none else some (ofList is)

theorem ofList?_append_singleton (is : List Interrupt) (i : Interrupt) :
    ofList? (is ++ [i]) = some (ofList (is ++ [i])) := by
  simp [ofList?]

theorem map_entries_ofList? {is : List Interrupt}
    (h : is.Pairwise fun a b => a.index < b.index) :
    (ofList? is).map (·.entries) =
      if is.isEmpty then none else some (is.map fun i => (i.index, i)) := by
  rw [ofList?]
  split
  · rfl
  · rw [Option.map_some, entries_ofList h]

/-- An interrupt behind those of a table in order is added to them, or makes the first table. -/
theorem add_ofList? {is : List Interrupt} {i : Interrupt}
    (h : (is ++ [i]).Pairwise fun a b => a.index < b.index) :
    ((ofList? is).getD empty).add i = .ok (ofList (is ++ [i])) := by
  have hsame : (ofList? is).getD empty = ofList is := by
    cases is <;> rfl
  rw [hsame, add_ofList h]

/-! ## Entries without owners -/

/-- The entries without owners. -/
def unowned (t : VectorTable) : VectorTable :=
  ⟨t.entries.filter (·.2.isUnowned), t.sorted.filter _⟩

theorem get?_unowned (t : VectorTable) (k : Int) :
    t.unowned.get? k = (t.get? k).filter isUnowned := by
  ext i
  rw [← mem_entries_iff, Option.filter_eq_some_iff, ← mem_entries_iff]
  exact List.mem_filter

theorem toList_unowned (t : VectorTable) : t.unowned.toList = t.toList.filter isUnowned := by
  simp only [toList, unowned, List.filter_map, Function.comp_def]

theorem IsKeyed.unowned {t : VectorTable} (h : t.IsKeyed) : t.unowned.IsKeyed := by
  intro k i hi
  rw [get?_unowned] at hi
  exact h k i (Option.filter_eq_some_iff.1 hi).1

theorem IsKeyed.atIndex_toList {t : VectorTable} (h : t.IsKeyed) (k : Int) :
    atIndex k t.toList = (t.get? k).toList := by
  have hkeyed : ∀ e ∈ t.entries, e.2.index = e.1 := fun e he => h _ _ (mem_entries_iff.1 he)
  have hsorted := t.sorted
  show atIndex k (t.entries.map Prod.snd) = (t.entries.lookup k).toList
  generalize t.entries = es at hkeyed hsorted
  induction es with
  | nil => rfl
  | cons e es ih =>
    obtain ⟨j, i⟩ := e
    obtain ⟨hhead, htail⟩ := List.pairwise_cons.1 hsorted
    obtain ⟨hi, hothers⟩ := List.forall_mem_cons.1 hkeyed
    have hi : i.index = j := hi
    subst hi
    by_cases hk : k = i.index
    · subst hk
      have hnone : atIndex i.index (es.map Prod.snd) = [] := by
        apply atIndex_eq_nil
        intro f hf
        obtain ⟨e, he, rfl⟩ := List.mem_map.1 hf
        rw [hothers e he]
        exact Int.ne_of_gt (hhead e he)
      rw [List.map_cons, atIndex_cons_self, hnone, List.lookup_cons_self]
      rfl
    · have hb : (k == i.index) = false := beq_eq_false_iff_ne.2 hk
      rw [List.map_cons, atIndex_cons_of_ne (Ne.symm hk), List.lookup_cons, hb]
      exact ih hothers htail

/-- A table is made again from its own entries. -/
theorem IsKeyed.addAll_toList {t : VectorTable} (h : t.IsKeyed) :
    (empty.addAll t.toList).toExcept = .ok t := by
  refine addAll_eq_ok_iff.2 fun k => ?_
  rw [h.atIndex_toList]
  cases t.get? k <;> rfl

/-! ## Exceptions of the core -/

theorem hasExceptions_iff {t : VectorTable} :
    t.hasExceptions = true ↔ ∃ k i, k < 0 ∧ t.get? k = some i := by
  simp only [hasExceptions, List.any_eq_true, decide_eq_true_eq]
  constructor
  · rintro ⟨⟨k, i⟩, he, hk⟩
    exact ⟨k, i, hk, mem_entries_iff.1 he⟩
  · rintro ⟨k, i, hk, hi⟩
    exact ⟨(k, i), mem_entries_iff.2 hi, hk⟩

/-- The exceptions of a core as entries. -/
def coreEntries (small : Bool) : List Interrupt :=
  (CoreException.ofCore small).map CoreException.toInterrupt

theorem coreEntries_spec (small : Bool) :
    ∀ i ∈ coreEntries small, i.index < 0 ∧ i.isUnowned = true := by
  intro i hi
  obtain ⟨e, he, rfl⟩ := List.mem_map.1 hi
  have hall : ∀ e ∈ CoreException.all, e.index < 0 := by decide
  exact ⟨hall e (List.mem_filter.1 he).1, rfl⟩

theorem atIndex_coreEntries_ne_nil (small : Bool) : atIndex (-14) (coreEntries small) ≠ [] := by
  cases small <;> decide

end VectorTable

namespace Device

open Interrupt VectorTable

/-- The table was made with the exceptions of the core, or needs none. -/
theorem withCoreExceptions_ok {d : Device} {t u : VectorTable}
    (h : d.withCoreExceptions t = .ok u) :
    u = t ∨ t.hasExceptions = false ∧ ∃ small, (t.addAll (coreEntries small)).toExcept = .ok u := by
  unfold withCoreExceptions at h
  split at h
  · cases h
    exact .inl rfl
  · rename_i hnone
    split at h
    · rename_i cpu _
      exact .inr ⟨Bool.eq_false_iff.2 hnone, cpu.isSmall, h⟩
    · cases h
      exact .inl rfl

theorem withCoreExceptions_of_hasExceptions (d : Device) {t : VectorTable}
    (h : t.hasExceptions = true) : d.withCoreExceptions t = .ok t := if_pos h

/-- The exceptions of the core are added once. -/
theorem withCoreExceptions_withCoreExceptions {d : Device} {t u : VectorTable}
    (h : d.withCoreExceptions t = .ok u) : d.withCoreExceptions u = .ok u := by
  rcases withCoreExceptions_ok h with rfl | ⟨-, small, hadd⟩
  · exact h
  · apply withCoreExceptions_of_hasExceptions
    have hsome := isSome_mergeAll (addAll_eq_ok_iff.1 hadd (-14))
      (.inr (atIndex_coreEntries_ne_nil small))
    obtain ⟨i, hi⟩ := Option.isSome_iff_exists.1 hsome
    exact hasExceptions_iff.2 ⟨-14, i, by decide, hi⟩

/-- What was under an index stays there when the exceptions of the core are added. -/
theorem get?_withCoreExceptions {d : Device} {t u : VectorTable}
    (h : d.withCoreExceptions t = .ok u) {k : Int} (hk : (t.get? k).isSome = true) :
    u.get? k = t.get? k := by
  rcases withCoreExceptions_ok h with rfl | ⟨hnone, small, hadd⟩
  · rfl
  · obtain ⟨i, hi⟩ := Option.isSome_iff_exists.1 hk
    have hpos : 0 ≤ k := by
      by_contra hneg
      have hsome := hasExceptions_iff.2 ⟨k, i, Int.not_le.1 hneg, hi⟩
      rw [hnone] at hsome
      cases hsome
    have hother : atIndex k (coreEntries small) = [] := atIndex_eq_nil fun j hj hjk =>
      Int.not_lt.2 hpos (hjk ▸ (coreEntries_spec small j hj).1)
    have hmerge := addAll_eq_ok_iff.1 hadd k
    rw [hother] at hmerge
    exact (Except.ok.inj hmerge).symm

/-- Entries without owners and exceptions of the core have no owners. -/
theorem isUnowned_withCoreExceptions {d : Device} {t u : VectorTable}
    (h : d.withCoreExceptions t = .ok u) {k : Int} {i : Interrupt}
    (ht : ∀ j, t.get? k = some j → j.isUnowned = true) (hi : u.get? k = some i) :
    i.isUnowned = true := by
  rcases withCoreExceptions_ok h with rfl | ⟨-, small, hadd⟩
  · exact ht i hi
  · have hmerge := addAll_eq_ok_iff.1 hadd k
    rw [hi] at hmerge
    exact mergeAll_ok (fun _ _ => isUnowned_absorb) ht
      (fun j hj => (coreEntries_spec small j (index_of_mem_atIndex hj).1).2) hmerge

/-- No entry without owners has the index of a peripheral's interrupt. -/
def HasOwnIndexes (d : Device) : Prop :=
  ∀ v ∈ d.unownedVectors, ∀ i ∈ interruptsOf d.peripherals, v.index ≠ i.index

theorem isUnowned_of_mem_unownedVectors {d : Device} {v : Interrupt}
    (h : v ∈ d.unownedVectors) : v.isUnowned = true := by
  unfold unownedVectors at h
  cases ht : d.vectorTable with
  | none => simp [ht] at h
  | some t =>
    rw [ht] at h
    exact (List.mem_filter.1 h).2

theorem not_isUnowned_of_mem_interruptsOf {ps : List Peripheral} {i : Interrupt}
    (h : i ∈ interruptsOf ps) : i.isUnowned = false := by
  obtain ⟨p, -, hi⟩ := List.mem_flatMap.1 h
  obtain ⟨j, -, rfl⟩ := List.mem_map.1 hi
  exact not_isUnowned_ownedBy p.name j

/-- What is under an index when the interrupts of peripherals are added once more. -/
theorem mergeAll_again {d : Device} (hd : d.HasOwnIndexes) {t u v : VectorTable}
    (ht : (empty.addAll d.unownedVectors).toExcept = .ok t)
    (hu : (t.collect d.peripherals).toExcept = .ok u) (hv : d.withCoreExceptions u = .ok v)
    (k : Int) :
    mergeAll ((v.get? k).filter isUnowned) (atIndex k (interruptsOf d.peripherals)) =
      .ok (v.get? k) := by
  have ht := addAll_eq_ok_iff.1 ht k
  have hu := addAll_eq_ok_iff.1 hu k
  by_cases hk : atIndex k (interruptsOf d.peripherals) = []
  · -- no peripheral raises it: it has no owner, and is there from the start
    rw [hk] at hu ⊢
    have hut : u.get? k = t.get? k := (Except.ok.inj hu).symm
    have hunowned : ∀ j, u.get? k = some j → j.isUnowned = true := by
      intro j hj
      rw [hut] at hj
      rw [hj] at ht
      exact mergeAll_ok (fun _ _ => isUnowned_absorb) nofun
        (fun i hi => isUnowned_of_mem_unownedVectors (index_of_mem_atIndex hi).1) ht
    cases hvk : v.get? k with
    | none => rfl
    | some i =>
      rw [Option.filter_some_pos (isUnowned_withCoreExceptions hv hunowned hvk)]
      rfl
  · -- some peripheral raises it: nothing else is under its index
    obtain ⟨i, hi⟩ := List.exists_mem_of_ne_nil _ hk
    have hnone : atIndex k d.unownedVectors = [] := atIndex_eq_nil fun w hw hwk =>
      hd w hw i (index_of_mem_atIndex hi).1 (hwk.trans (index_of_mem_atIndex hi).2.symm)
    rw [hnone] at ht
    rw [show t.get? k = none from (Except.ok.inj ht).symm] at hu
    have hsome := isSome_mergeAll hu (.inr hk)
    rw [get?_withCoreExceptions hv hsome]
    obtain ⟨j, hj⟩ := Option.isSome_iff_exists.1 hsome
    rw [hj] at hu ⊢
    have howned : j.isUnowned = false := by
      refine mergeAll_ok (P := fun i => i.isUnowned = false)
        (fun _ _ ha _ => not_isUnowned_absorb ha) ?_
        (fun i hi => not_isUnowned_of_mem_interruptsOf (index_of_mem_atIndex hi).1) hu
      nofun
    rw [Option.filter_some_neg (by simp [howned])]
    exact hu

/-- The table that is collected has every entry under its own index. -/
theorem isKeyed_collectVectors {d e : Device} (h : d.collectVectors = .ok e) :
    ∀ t ∈ e.vectorTable, t.IsKeyed := by
  unfold collectVectors at h
  obtain ⟨t, ht, h⟩ := bind_eq_ok.1 h
  obtain ⟨u, hu, h⟩ := bind_eq_ok.1 h
  obtain ⟨v, hv, h⟩ := bind_eq_ok.1 h
  cases h
  have hu := isKeyed_addAll (isKeyed_addAll isKeyed_empty ht) hu
  rintro _ ⟨⟩
  rcases withCoreExceptions_ok hv with rfl | ⟨-, small, hadd⟩
  · exact hu
  · exact isKeyed_addAll hu hadd

/-- **Collecting vectors** once more leaves the table as it is. -/
theorem collectVectors_collectVectors {d e : Device} (hd : d.HasOwnIndexes)
    (h : d.collectVectors = .ok e) : e.collectVectors = .ok e := by
  have hkeyed := isKeyed_collectVectors h
  unfold collectVectors at h
  obtain ⟨t, ht, h⟩ := bind_eq_ok.1 h
  obtain ⟨u, hu, h⟩ := bind_eq_ok.1 h
  obtain ⟨v, hv, h⟩ := bind_eq_ok.1 h
  cases h
  have hkeyed : v.IsKeyed := hkeyed v rfl
  have hunowned : ({ d with vectorTable := some v } : Device).unownedVectors =
      v.unowned.toList := (toList_unowned v).symm
  have hagain : (v.unowned.collect d.peripherals).toExcept = .ok v := by
    refine addAll_eq_ok_iff.2 fun k => ?_
    rw [get?_unowned]
    exact mergeAll_again hd ht hu hv k
  unfold collectVectors
  rw [hunowned]
  refine bind_eq_ok.2 ⟨v.unowned, hkeyed.unowned.addAll_toList, ?_⟩
  refine bind_eq_ok.2 ⟨v, hagain, ?_⟩
  exact bind_eq_ok.2 ⟨v, withCoreExceptions_withCoreExceptions hv, rfl⟩

end Device

end RegisterMap
