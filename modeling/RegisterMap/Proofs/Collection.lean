import RegisterMap.Proofs.Vectors

/-!
# Collected vectors

A device makes its vector table from three sources: the entries that no peripheral owned, the
interrupts of the peripherals, and the exceptions of the core. The last are chosen so that they meet
no other entry, so the table is made of one list (`Device.collectVectors_eq`), and what it has under
an index are the entries of that index united (`VectorTable.get?_of_addAll`). Main statement:
`Device.collecting_spec`, on when collecting fails and what it gives.
-/

namespace RegisterMap

namespace Interrupt

/-! ## Entries of one index -/

theorem mem_peripherals_absorb {a b : Interrupt} {o : String} :
    o ∈ (a.absorb b).peripherals ↔ o ∈ a.peripherals ∨ o ∈ b.peripherals := by
  have hkeep (new old : List String) :
      o ∈ new.foldl (fun ps p => if ps.contains p then ps else ps ++ [p]) old ↔
        o ∈ old ∨ o ∈ new := by
    induction new generalizing old with
    | nil => simp
    | cons p new ih =>
      rw [List.foldl_cons, ih]
      by_cases hp : old.contains p = true
      · rw [if_pos hp, List.mem_cons]
        have hmem : p ∈ old := List.contains_iff_mem.1 hp
        constructor
        · rintro (h | h)
          · exact .inl h
          · exact .inr (.inr h)
        · rintro (h | rfl | h)
          · exact .inl h
          · exact .inl hmem
          · exact .inr h
      · rw [if_neg hp, List.mem_append, List.mem_singleton, List.mem_cons, or_assoc]
  exact hkeep b.peripherals a.peripherals

theorem mem_peripherals_ownedBy {p o : String} {i : Interrupt} :
    o ∈ (i.ownedBy p).peripherals ↔ o = p ∨ o ∈ i.peripherals := by
  unfold ownedBy
  split
  · rename_i h
    have hmem : p ∈ i.peripherals := List.contains_iff_mem.1 h
    constructor
    · exact .inr
    · rintro (rfl | h)
      · exact hmem
      · exact h
  · simp [or_comm]

@[simp] theorem index_ownedBy (p : String) (i : Interrupt) : (i.ownedBy p).index = i.index := by
  unfold ownedBy
  split <;> rfl

@[simp] theorem name_ownedBy (p : String) (i : Interrupt) : (i.ownedBy p).name = i.name := by
  unfold ownedBy
  split <;> rfl

/-- The entry is the first of several after it took over the others. -/
structure Unites (j first : Interrupt) (rest : List Interrupt) : Prop where
  index : j.index = first.index
  name : j.name = first.name
  handler : j.handler = first.handler
  description : first.description ≠ "" → j.description = first.description
  owners : ∀ o, o ∈ j.peripherals ↔ ∃ i ∈ first :: rest, o ∈ i.peripherals

theorem Unites.refl (i : Interrupt) : Unites i i [] where
  index := rfl
  name := rfl
  handler := rfl
  description := fun _ => rfl
  owners := by simp

theorem Unites.of_absorb {a i j : Interrupt} {is : List Interrupt} (h : Unites j (a.absorb i) is) :
    Unites j a (i :: is) where
  index := h.index
  name := h.name
  handler := h.handler
  description hne := by
    have hkept : (a.absorb i).description = a.description := by
      simp [absorb, String.isEmpty_iff, hne]
    rw [h.description (hkept ▸ hne), hkept]
  owners o := by
    rw [h.owners]
    simp only [List.exists_mem_cons_iff, mem_peripherals_absorb, or_assoc]

/-- An entry takes over others as long as they have its name. -/
theorem mergeAll_some_eq_ok_iff {a : Interrupt} {is : List Interrupt} :
    (∃ r, mergeAll (some a) is = .ok r) ↔ ∀ i ∈ is, i.name = a.name := by
  induction is generalizing a with
  | nil => simp [mergeAll]
  | cons i is ih =>
    rw [List.forall_mem_cons, mergeAll, merge]
    by_cases hname : a.name = i.name
    · rw [if_pos hname]
      have hsame : (a.absorb i).name = a.name := rfl
      simp only [hname, true_and]
      exact (ih (a := a.absorb i)).trans (by rw [hsame, hname])
    · rw [if_neg hname]
      constructor
      · rintro ⟨r, hr⟩
        cases hr
      · intro h
        exact absurd h.1.symm hname

theorem unites_of_mergeAll {a : Interrupt} {is : List Interrupt} {r : Option Interrupt}
    (h : mergeAll (some a) is = .ok r) : ∃ j, r = some j ∧ Unites j a is := by
  induction is generalizing a with
  | nil =>
    cases h
    exact ⟨a, rfl, .refl a⟩
  | cons i is ih =>
    rw [mergeAll, merge] at h
    split at h
    · obtain ⟨j, rfl, hj⟩ := ih h
      exact ⟨j, rfl, hj.of_absorb⟩
    · cases h

/-- Entries of one index have one name. -/
def AgreeOnNames (is : List Interrupt) : Prop :=
  ∀ a ∈ is, ∀ b ∈ is, a.index = b.index → a.name = b.name

theorem not_agreeOnNames_iff {is : List Interrupt} :
    ¬AgreeOnNames is ↔ ∃ a ∈ is, ∃ b ∈ is, a.index = b.index ∧ a.name ≠ b.name := by
  simp [AgreeOnNames]

end Interrupt

namespace VectorTable

open Interrupt

/-! ## Tables of entries -/

theorem toExcept_addAll_append (t : VectorTable) (is js : List Interrupt) :
    (t.addAll (is ++ js)).toExcept =
      (t.addAll is).toExcept >>= fun u => (u.addAll js).toExcept := by
  unfold addAll
  rw [List.foldl_append, Outcome.toExcept_foldl_andThen]

/-- Entries can be added when those of each index can be merged. -/
theorem exists_addAll_iff {t : VectorTable} {is : List Interrupt} :
    (∃ u, (t.addAll is).toExcept = .ok u) ↔
      ∀ k, ∃ r, mergeAll (t.get? k) (atIndex k is) = .ok r := by
  constructor
  · rintro ⟨u, hu⟩ k
    exact ⟨_, addAll_eq_ok_iff.1 hu k⟩
  · intro h
    induction is generalizing t with
    | nil => exact ⟨t, rfl⟩
    | cons i is ih =>
      rw [toExcept_addAll_cons, add_eq]
      cases hmerge : merge (t.get? i.index) i with
      | error f =>
        obtain ⟨r, hr⟩ := h i.index
        rw [atIndex_cons_self, mergeAll, hmerge] at hr
        cases hr
      | ok j => exact ih fun k => mergeAll_atIndex_cons hmerge k is ▸ h k

/-- **When entries make a table.** -/
theorem exists_addAll_empty_iff {is : List Interrupt} :
    (∃ t, (empty.addAll is).toExcept = .ok t) ↔ AgreeOnNames is := by
  rw [exists_addAll_iff]
  constructor
  · intro h a ha b hb hab
    obtain ⟨r, hr⟩ := h b.index
    -- both are among the entries of their index, the first of which named them all
    have hb' : b ∈ atIndex b.index is := by simp [atIndex, hb]
    have ha' : a ∈ atIndex b.index is := by simp [atIndex, ha, hab]
    cases hat : atIndex b.index is with
    | nil => simp [hat] at hb'
    | cons i rest =>
      rw [hat] at hr ha' hb'
      have hnames : ∀ c ∈ i :: rest, c.name = i.name :=
        List.forall_mem_cons.2 ⟨rfl, mergeAll_some_eq_ok_iff.1 ⟨r, hr⟩⟩
      rw [hnames a ha', hnames b hb']
  · intro h k
    cases hat : atIndex k is with
    | nil => exact ⟨none, rfl⟩
    | cons i rest =>
      have hmem : ∀ c ∈ i :: rest, c ∈ is ∧ c.index = k := fun c hc =>
        index_of_mem_atIndex (hat ▸ hc)
      obtain ⟨hi, hrest⟩ := List.forall_mem_cons.1 hmem
      refine mergeAll_some_eq_ok_iff.2 fun c hc => ?_
      exact h c (hrest c hc).1 i hi.1 ((hrest c hc).2.trans hi.2.symm)

/-- What a table of entries has under an index: nothing, or the entries of the index united. -/
theorem get?_of_addAll {t : VectorTable} {is : List Interrupt}
    (h : (empty.addAll is).toExcept = .ok t) (k : Int) :
    (atIndex k is = [] ∧ t.get? k = none) ∨
      ∃ i rest j, atIndex k is = i :: rest ∧ t.get? k = some j ∧ Unites j i rest := by
  have hk := addAll_eq_ok_iff.1 h k
  cases hat : atIndex k is with
  | nil =>
    rw [hat] at hk
    exact .inl ⟨rfl, (Except.ok.inj hk).symm⟩
  | cons i rest =>
    rw [hat] at hk
    obtain ⟨j, hj, hunites⟩ := unites_of_mergeAll (a := i) hk
    exact .inr ⟨i, rest, j, rfl, hj, hunites⟩

section Contents

variable {t : VectorTable} {is : List Interrupt} (h : (empty.addAll is).toExcept = .ok t)

include h in

theorem get?_eq_none_of_addAll {k : Int} (hk : ∀ i ∈ is, i.index ≠ k) : t.get? k = none := by
  rcases get?_of_addAll h k with ⟨-, hnone⟩ | ⟨i, rest, j, hat, -, -⟩
  · exact hnone
  · rw [atIndex_eq_nil hk] at hat
    cases hat

include h in
/-- Every entry is there under its index, with its name and its owners. -/
theorem get?_index_of_addAll {i : Interrupt} (hi : i ∈ is) :
    ∃ j, t.get? i.index = some j ∧ j.name = i.name ∧ ∀ o ∈ i.peripherals, o ∈ j.peripherals := by
  have hmem : i ∈ atIndex i.index is := by simp [atIndex, hi]
  have hagree := exists_addAll_empty_iff.1 ⟨t, h⟩
  rcases get?_of_addAll h i.index with ⟨hnil, -⟩ | ⟨first, rest, j, hat, hj, hunites⟩
  · simp [hnil] at hmem
  · have hfirst : first ∈ is ∧ first.index = i.index :=
      index_of_mem_atIndex (hat ▸ List.mem_cons_self)
    refine ⟨j, hj, ?_, fun o ho => (hunites.owners o).2 ⟨i, hat ▸ hmem, ho⟩⟩
    rw [hunites.name, hagree first hfirst.1 i hi hfirst.2]

include h in
/-- What is in the table comes from the entries. -/
theorem exists_mem_of_get?_addAll {k : Int} {j : Interrupt} (hj : t.get? k = some j) :
    (∃ i ∈ is, i.index = k) ∧
      ∀ o ∈ j.peripherals, ∃ i ∈ is, i.index = k ∧ o ∈ i.peripherals := by
  rcases get?_of_addAll h k with ⟨-, hnone⟩ | ⟨i, rest, j', hat, hj', hunites⟩
  · rw [hnone] at hj
    cases hj
  · rw [hj] at hj'
    cases hj'
    have hmem : ∀ c ∈ i :: rest, c ∈ is ∧ c.index = k := fun c hc =>
      index_of_mem_atIndex (hat ▸ hc)
    refine ⟨⟨i, hmem i List.mem_cons_self⟩, fun o ho => ?_⟩
    obtain ⟨c, hc, hoc⟩ := (hunites.owners o).1 ho
    exact ⟨c, (hmem c hc).1, (hmem c hc).2, hoc⟩

include h in
/-- The first entry of an index keeps its handler, and its description if it has one. -/
theorem get?_first_of_addAll {k : Int} {i : Interrupt}
    (hi : is.find? (·.index == k) = some i) :
    ∃ j, t.get? k = some j ∧ j.handler = i.handler ∧
      (i.description ≠ "" → j.description = i.description) := by
  have hhead : (atIndex k is).head? = some i := by
    rw [← hi]
    exact List.head?_filter
  rcases get?_of_addAll h k with ⟨hnil, -⟩ | ⟨first, rest, j, hat, hj, hunites⟩
  · rw [hnil] at hhead
    cases hhead
  · rw [hat] at hhead
    cases hhead
    exact ⟨j, hj, hunites.handler, hunites.description⟩

include h in
/-- An entry that is alone under its index stays as it is. -/
theorem get?_of_addAll_of_alone {i : Interrupt} (hi : atIndex i.index is = [i]) :
    t.get? i.index = some i := by
  have hk := addAll_eq_ok_iff.1 h i.index
  rw [hi] at hk
  exact (Except.ok.inj hk).symm

end Contents

/-- The same indexes, names and sets of owners. -/
def SameVectors (t u : VectorTable) : Prop :=
  ∀ k, Option.Rel
    (fun i j => i.name = j.name ∧ ∀ o, o ∈ i.peripherals ↔ o ∈ j.peripherals)
    (t.get? k) (u.get? k)

/-- The order of the entries makes no difference to indexes, names and sets of owners. -/
theorem sameVectors_of_perm {t u : VectorTable} {is js : List Interrupt} (hperm : is.Perm js)
    (ht : (empty.addAll is).toExcept = .ok t) (hu : (empty.addAll js).toExcept = .ok u) :
    t.SameVectors u := by
  intro k
  by_cases hk : ∃ i ∈ is, i.index = k
  · obtain ⟨i, hi, rfl⟩ := hk
    obtain ⟨a, ha, haname, -⟩ := get?_index_of_addAll ht hi
    obtain ⟨b, hb, hbname, -⟩ := get?_index_of_addAll hu (hperm.mem_iff.1 hi)
    have hato := (exists_mem_of_get?_addAll ht ha).2
    have hbto := (exists_mem_of_get?_addAll hu hb).2
    rw [ha, hb]
    refine .some ⟨haname.trans hbname.symm, fun o => ⟨fun ho => ?_, fun ho => ?_⟩⟩
    · obtain ⟨c, hc, hci, hco⟩ := hato o ho
      obtain ⟨b', hb', -, hkeep⟩ := get?_index_of_addAll hu (hperm.mem_iff.1 hc)
      rw [hci, hb] at hb'
      cases hb'
      exact hkeep o hco
    · obtain ⟨c, hc, hci, hco⟩ := hbto o ho
      obtain ⟨a', ha', -, hkeep⟩ := get?_index_of_addAll ht (hperm.mem_iff.2 hc)
      rw [hci, ha] at ha'
      cases ha'
      exact hkeep o hco
  · have hnone : ∀ i ∈ is, i.index ≠ k := fun i hi hik => hk ⟨i, hi, hik⟩
    rw [get?_eq_none_of_addAll ht hnone,
      get?_eq_none_of_addAll hu fun i hi => hnone i (hperm.mem_iff.2 hi)]
    exact .none

end VectorTable

namespace Device

open Interrupt VectorTable

/-! ## The three sources -/

/-- The entries of the old table that no peripheral owns, and the interrupts of the peripherals. -/
def listedVectors (d : Device) : List Interrupt :=
  d.unownedVectors ++ d.peripherals.flatMap Peripheral.interrupts

/-- The exceptions of the core that a device adds: all of a Cortex-M, unless some are listed. -/
def addedExceptions (d : Device) : List Interrupt :=
  if d.listedVectors.any fun i => i.index < 0 then []
  else
    match d.cpu.filter Cpu.isCortexM with
    | some c => coreEntries c.isSmall
    | none => []

/-- All that a device puts into its table, in order. -/
def gatheredVectors (d : Device) : List Interrupt :=
  d.unownedVectors ++ interruptsOf d.peripherals ++ d.addedExceptions

theorem mem_interruptsOf {ps : List Peripheral} {i : Interrupt} :
    i ∈ interruptsOf ps ↔ ∃ p ∈ ps, ∃ j ∈ p.interrupts, j.ownedBy p.name = i := by
  simp [interruptsOf]

theorem mem_listedVectors {d : Device} {i : Interrupt} :
    i ∈ d.listedVectors ↔ i ∈ d.unownedVectors ∨ ∃ p ∈ d.peripherals, i ∈ p.interrupts := by
  simp [listedVectors]

theorem mem_gatheredVectors {d : Device} {i : Interrupt} :
    i ∈ d.gatheredVectors ↔
      i ∈ d.unownedVectors ∨ (∃ p ∈ d.peripherals, ∃ j ∈ p.interrupts, j.ownedBy p.name = i) ∨
        i ∈ d.addedExceptions := by
  simp [gatheredVectors, mem_interruptsOf]

/-- What is listed is gathered, perhaps with one more owner. -/
theorem exists_gathered_of_listed {d : Device} {v : Interrupt} (hv : v ∈ d.listedVectors) :
    ∃ i ∈ d.gatheredVectors, i.index = v.index ∧ i.name = v.name := by
  rcases mem_listedVectors.1 hv with hv | ⟨p, hp, hv⟩
  · exact ⟨v, mem_gatheredVectors.2 (.inl hv), rfl, rfl⟩
  · exact ⟨v.ownedBy p.name, mem_gatheredVectors.2 (.inr (.inl ⟨p, hp, v, hv, rfl⟩)), by simp,
      by simp⟩

/-- What is gathered is listed or added. -/
theorem exists_listed_of_gathered {d : Device} {i : Interrupt} (hi : i ∈ d.gatheredVectors) :
    (∃ v ∈ d.listedVectors, v.index = i.index ∧ v.name = i.name) ∨ i ∈ d.addedExceptions := by
  rcases mem_gatheredVectors.1 hi with hi | ⟨p, hp, j, hj, rfl⟩ | hi
  · exact .inl ⟨i, mem_listedVectors.2 (.inl hi), rfl, rfl⟩
  · exact .inl ⟨j, mem_listedVectors.2 (.inr ⟨p, hp, hj⟩), by simp, by simp⟩
  · exact .inr hi

/-- The device is one whose exceptions of the core are added: none is listed, and the core has
them. -/
def LacksExceptions (d : Device) (c : Cpu) : Prop :=
  d.cpu = some c ∧ c.isCortexM = true ∧ ∀ v ∈ d.listedVectors, 0 ≤ v.index

theorem addedExceptions_eq {d : Device} {c : Cpu} (h : d.LacksExceptions c) :
    d.addedExceptions = coreEntries c.isSmall := by
  obtain ⟨hcpu, hm, hall⟩ := h
  have hany : ¬d.listedVectors.any (fun i => decide (i.index < 0)) = true := by
    simpa using hall
  rw [addedExceptions, if_neg hany, hcpu, Option.filter_some_pos hm]

/-- Exceptions are added to no other device. -/
theorem lacksExceptions_of_mem {d : Device} {i : Interrupt} (hi : i ∈ d.addedExceptions) :
    ∃ c, d.LacksExceptions c := by
  unfold addedExceptions at hi
  split at hi
  · cases hi
  · rename_i hany
    split at hi
    · rename_i c hc
      obtain ⟨hcpu, hm⟩ := Option.filter_eq_some_iff.1 hc
      exact ⟨c, hcpu, hm, by simpa using hany⟩
    · cases hi

theorem atIndex_coreEntries (small : Bool) :
    ∀ i ∈ coreEntries small, atIndex i.index (coreEntries small) = [i] := by
  cases small <;>
    simp [coreEntries, CoreException.ofCore, CoreException.all, atIndex, CoreException.toInterrupt]

/-- The exceptions that are added meet no other entry. -/
theorem atIndex_gatheredVectors {d : Device} {i : Interrupt} (hi : i ∈ d.addedExceptions) :
    atIndex i.index d.gatheredVectors = [i] := by
  obtain ⟨c, hc⟩ := lacksExceptions_of_mem hi
  have hcore : i ∈ coreEntries c.isSmall := addedExceptions_eq hc ▸ hi
  have hneg : i.index < 0 := (coreEntries_spec c.isSmall i hcore).1
  have hothers : atIndex i.index (d.unownedVectors ++ interruptsOf d.peripherals) = [] := by
    refine atIndex_eq_nil fun j hj hji => ?_
    have hj : ∃ v ∈ d.listedVectors, v.index = j.index := by
      rcases List.mem_append.1 hj with hj | hj
      · exact ⟨j, mem_listedVectors.2 (.inl hj), rfl⟩
      · obtain ⟨p, hp, v, hv, rfl⟩ := mem_interruptsOf.1 hj
        exact ⟨v, mem_listedVectors.2 (.inr ⟨p, hp, hv⟩), by simp⟩
    obtain ⟨v, hv, hvj⟩ := hj
    have hpos := hc.2.2 v hv
    omega
  rw [gatheredVectors, atIndex, List.filter_append]
  show atIndex i.index _ ++ atIndex i.index _ = _
  rw [hothers, addedExceptions_eq hc, atIndex_coreEntries c.isSmall i hcore]
  rfl

/-- Adding exceptions causes no disagreement. -/
theorem agreeOnNames_gatheredVectors {d : Device} :
    AgreeOnNames d.gatheredVectors ↔ AgreeOnNames d.listedVectors := by
  constructor
  · intro h a ha b hb hab
    obtain ⟨i, hi, hia, hname⟩ := exists_gathered_of_listed ha
    obtain ⟨j, hj, hjb, hname'⟩ := exists_gathered_of_listed hb
    rw [← hname, ← hname']
    exact h i hi j hj (by omega)
  · intro h i hi j hj hij
    have halone {x y : Interrupt} (hx : x ∈ d.addedExceptions) (hy : y ∈ d.gatheredVectors)
        (hyx : y.index = x.index) : y = x := by
      have hmem : y ∈ atIndex x.index d.gatheredVectors := by simp [atIndex, hy, hyx]
      rw [atIndex_gatheredVectors hx] at hmem
      exact List.mem_singleton.1 hmem
    rcases exists_listed_of_gathered hi with ⟨a, ha, hai, hname⟩ | hadded
    · rcases exists_listed_of_gathered hj with ⟨b, hb, hbj, hname'⟩ | hadded
      · rw [← hname, ← hname']
        exact h a ha b hb (by omega)
      · rw [halone hadded hi hij]
    · rw [halone hadded hj hij.symm]

/-- A table of what is listed has exceptions where some are listed. -/
theorem withCoreExceptions_eq {d : Device} {t : VectorTable}
    (ht : (empty.addAll (d.unownedVectors ++ interruptsOf d.peripherals)).toExcept = .ok t) :
    d.withCoreExceptions t = (t.addAll d.addedExceptions).toExcept := by
  have hhas : t.hasExceptions = d.listedVectors.any fun i => decide (i.index < 0) := by
    rw [Bool.eq_iff_iff, hasExceptions_iff, List.any_eq_true]
    simp only [decide_eq_true_eq]
    constructor
    · rintro ⟨k, j, hk, hj⟩
      obtain ⟨⟨i, hi, rfl⟩, -⟩ := exists_mem_of_get?_addAll ht hj
      rcases List.mem_append.1 hi with hi | hi
      · exact ⟨i, mem_listedVectors.2 (.inl hi), hk⟩
      · obtain ⟨p, hp, v, hv, rfl⟩ := mem_interruptsOf.1 hi
        exact ⟨v, mem_listedVectors.2 (.inr ⟨p, hp, hv⟩), by simpa using hk⟩
    · rintro ⟨v, hv, hk⟩
      rcases mem_listedVectors.1 hv with hv | ⟨p, hp, hv⟩
      · obtain ⟨j, hj, -⟩ := get?_index_of_addAll ht (List.mem_append_left _ hv)
        exact ⟨v.index, j, hk, hj⟩
      · obtain ⟨j, hj, -⟩ := get?_index_of_addAll ht
          (List.mem_append_right _ (mem_interruptsOf.2 ⟨p, hp, v, hv, rfl⟩))
        exact ⟨v.index, j, hk, by simpa using hj⟩
  unfold withCoreExceptions addedExceptions
  rw [hhas]
  split
  · rfl
  · cases d.cpu.filter Cpu.isCortexM <;> rfl

/-- **Collecting vectors** makes one table of all that is gathered. -/
theorem collectVectors_eq (d : Device) :
    d.collectVectors =
      (empty.addAll d.gatheredVectors).toExcept.map fun t => { d with vectorTable := some t } := by
  have hlisted := toExcept_addAll_append empty d.unownedVectors (interruptsOf d.peripherals)
  have hall : (empty.addAll d.gatheredVectors).toExcept =
      (empty.addAll (d.unownedVectors ++ interruptsOf d.peripherals)).toExcept >>=
        fun t => (t.addAll d.addedExceptions).toExcept := toExcept_addAll_append _ _ _
  have hsteps : d.collectVectors =
      (empty.addAll (d.unownedVectors ++ interruptsOf d.peripherals)).toExcept >>= fun t =>
        (d.withCoreExceptions t).map fun t => { d with vectorTable := some t } := by
    rw [hlisted, bind_assoc]
    rfl
  rw [hsteps, hall]
  cases hok : (empty.addAll (d.unownedVectors ++ interruptsOf d.peripherals)).toExcept with
  | error f => rfl
  | ok t => exact congrArg (Except.map _) (withCoreExceptions_eq hok)

/-! ## Main statement -/

/-- The step that collects the vectors of a device. -/
def collecting (d : Device) : Outcome Device := .ofExcept d d.collectVectors

/-- What the table of a device is made of. -/
structure Collects (d : Device) (t : VectorTable) : Prop where
  keyed : t.IsKeyed
  /-- Each interrupt of a peripheral is there under its name, with the peripheral as an owner. -/
  raised : ∀ p ∈ d.peripherals, ∀ i ∈ p.interrupts,
    ∃ j, t.get? i.index = some j ∧ j.name = i.name ∧ p.name ∈ j.peripherals
  /-- Each owner is a peripheral with an interrupt of the index, or one that such an interrupt
  names. -/
  owners : ∀ k j, t.get? k = some j → ∀ o ∈ j.peripherals,
    ∃ p ∈ d.peripherals, ∃ i ∈ p.interrupts, i.index = k ∧ (o = p.name ∨ o ∈ i.peripherals)
  /-- Each old entry without owners is still there. -/
  unowned : ∀ v ∈ d.unownedVectors, ∃ j, t.get? v.index = some j ∧ j.name = v.name
  /-- The first of an index keeps its handler, and its description if it has one. -/
  unowned_first : ∀ k v, d.unownedVectors.find? (·.index == k) = some v →
    ∃ j, t.get? k = some j ∧ j.handler = v.handler ∧
      (v.description ≠ "" → j.description = v.description)
  /-- Whatever else is there is an exception of the core. -/
  others : ∀ k j, t.get? k = some j → (∀ v ∈ d.listedVectors, v.index ≠ k) →
    ∃ c, d.LacksExceptions c ∧ ∃ e ∈ CoreException.ofCore c.isSmall, j = e.toInterrupt
  /-- All exceptions of the core are there if none is listed. -/
  exceptions : ∀ c, d.LacksExceptions c → ∀ e ∈ CoreException.ofCore c.isSmall,
    t.get? e.index = some e.toInterrupt

theorem collects_of_addAll {d : Device} {t : VectorTable}
    (h : (empty.addAll d.gatheredVectors).toExcept = .ok t) : d.Collects t where
  keyed := isKeyed_addAll isKeyed_empty h
  raised p hp i hi := by
    have hmem : i.ownedBy p.name ∈ d.gatheredVectors :=
      mem_gatheredVectors.2 (.inr (.inl ⟨p, hp, i, hi, rfl⟩))
    obtain ⟨j, hj, hname, hkeep⟩ := get?_index_of_addAll h hmem
    exact ⟨j, by simpa using hj, by simpa using hname,
      hkeep _ (mem_peripherals_ownedBy.2 (.inl rfl))⟩
  owners k j hj o ho := by
    obtain ⟨i, hi, hik, hoi⟩ := (exists_mem_of_get?_addAll h hj).2 o ho
    have hunowned : i.isUnowned = false := by
      simp only [isUnowned, List.isEmpty_eq_false_iff]
      exact List.ne_nil_of_mem hoi
    rcases mem_gatheredVectors.1 hi with hi | ⟨p, hp, v, hv, rfl⟩ | hi
    · rw [isUnowned_of_mem_unownedVectors hi] at hunowned
      cases hunowned
    · exact ⟨p, hp, v, hv, by simpa using hik, mem_peripherals_ownedBy.1 hoi⟩
    · obtain ⟨c, hc⟩ := lacksExceptions_of_mem hi
      rw [(coreEntries_spec c.isSmall i (addedExceptions_eq hc ▸ hi)).2] at hunowned
      cases hunowned
  unowned v hv := by
    obtain ⟨j, hj, hname, -⟩ := get?_index_of_addAll h (mem_gatheredVectors.2 (.inl hv))
    exact ⟨j, hj, hname⟩
  unowned_first k v hv := by
    refine get?_first_of_addAll h ?_
    rw [gatheredVectors, List.append_assoc, List.find?_append, hv]
    rfl
  others k j hj hk := by
    obtain ⟨⟨i, hi, rfl⟩, -⟩ := exists_mem_of_get?_addAll h hj
    rcases exists_listed_of_gathered hi with ⟨v, hv, hvi, -⟩ | hadded
    · exact absurd hvi (hk v hv)
    · obtain ⟨c, hc⟩ := lacksExceptions_of_mem hadded
      obtain ⟨e, he, rfl⟩ := List.mem_map.1 (addedExceptions_eq hc ▸ hadded)
      rw [get?_of_addAll_of_alone h (atIndex_gatheredVectors hadded)] at hj
      cases hj
      exact ⟨c, hc, e, he, rfl⟩
  exceptions c hc e he := by
    have hadded : e.toInterrupt ∈ d.addedExceptions :=
      addedExceptions_eq hc ▸ List.mem_map_of_mem he
    exact get?_of_addAll_of_alone h (atIndex_gatheredVectors hadded)

theorem gatheredVectors_perm {d : Device} {ps : List Peripheral} (h : ps.Perm d.peripherals) :
    ({ d with peripherals := ps } : Device).gatheredVectors.Perm d.gatheredVectors := by
  have hany : ({ d with peripherals := ps } : Device).addedExceptions = d.addedExceptions := by
    have hperm : ({ d with peripherals := ps } : Device).listedVectors.Perm d.listedVectors :=
      (h.flatMap_right _).append_left _
    unfold addedExceptions
    rw [hperm.any_eq]
  unfold gatheredVectors
  rw [hany]
  exact ((h.flatMap_right _).append_left _).append_right _

theorem collecting_of_ok {d : Device} {t : VectorTable}
    (h : (empty.addAll d.gatheredVectors).toExcept = .ok t) :
    d.collecting = .pure { d with vectorTable := some t } := by
  rw [collecting, collectVectors_eq, h]
  rfl

theorem collecting_of_error {d : Device} {f : Failure}
    (h : (empty.addAll d.gatheredVectors).toExcept = .error f) :
    d.collecting = { state := d, failure := some f } := by
  rw [collecting, collectVectors_eq, h]
  rfl

theorem failure_collecting_eq_none_iff {d : Device} :
    d.collecting.failure = none ↔ ∃ t, (empty.addAll d.gatheredVectors).toExcept = .ok t := by
  cases h : (empty.addAll d.gatheredVectors).toExcept with
  | error f => simp [collecting_of_error h]
  | ok t => simp [collecting_of_ok h, Outcome.pure]

/-- **Collecting vectors** fails exactly when two of the entries listed have one index and
different names, and then leaves the device as it is. Otherwise the table has what is listed, and
the exceptions of the core if they are missing. The order of the peripherals makes no difference to
any of this. -/
theorem collecting_spec (d : Device) :
    (d.collecting.failure ≠ none ↔
      ∃ a ∈ d.listedVectors, ∃ b ∈ d.listedVectors, a.index = b.index ∧ a.name ≠ b.name) ∧
    (d.collecting.failure ≠ none → d.collecting.state = d) ∧
    (d.collecting.failure = none →
      ∃ t, d.collecting.state = { d with vectorTable := some t } ∧ d.Collects t) ∧
    ∀ ps : List Peripheral, ps.Perm d.peripherals →
      let e : Device := { d with peripherals := ps }
      (e.collecting.failure = none ↔ d.collecting.failure = none) ∧
      (d.collecting.failure = none →
        ∃ t u, d.collecting.state.vectorTable = some t ∧ e.collecting.state.vectorTable = some u ∧
          t.SameVectors u) := by
  refine ⟨?_, fun hfail => ?_, fun hok => ?_, fun ps hperm => ?_⟩
  · rw [← not_agreeOnNames_iff, ← agreeOnNames_gatheredVectors, ← exists_addAll_empty_iff, ne_eq,
      failure_collecting_eq_none_iff]
  · cases h : (empty.addAll d.gatheredVectors).toExcept with
    | error f => rw [collecting_of_error h]
    | ok t => exact absurd (failure_collecting_eq_none_iff.2 ⟨t, h⟩) hfail
  · obtain ⟨t, ht⟩ := failure_collecting_eq_none_iff.1 hok
    exact ⟨t, by rw [collecting_of_ok ht]; rfl, collects_of_addAll ht⟩
  · have hgathered := gatheredVectors_perm hperm
    have hsame : AgreeOnNames ({ d with peripherals := ps } : Device).gatheredVectors ↔
        AgreeOnNames d.gatheredVectors := by
      simp only [AgreeOnNames, hgathered.mem_iff]
    have hfail : ({ d with peripherals := ps } : Device).collecting.failure = none ↔
        d.collecting.failure = none := by
      simp only [failure_collecting_eq_none_iff, exists_addAll_empty_iff, hsame]
    refine ⟨hfail, fun hok => ?_⟩
    obtain ⟨t, ht⟩ := failure_collecting_eq_none_iff.1 hok
    obtain ⟨u, hu⟩ := failure_collecting_eq_none_iff.1 (hfail.2 hok)
    refine ⟨t, u, ?_, ?_, sameVectors_of_perm hgathered.symm ht hu⟩
    · rw [collecting_of_ok ht]
      rfl
    · rw [collecting_of_ok hu]
      rfl

end Device

end RegisterMap
