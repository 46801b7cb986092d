import RegisterMap.Proofs.Svd.Numbering
import RegisterMap.Proofs.Svd.Peripheral

/-!
# Extensions that were written

What SVD itself has no place for is read from the extensions of a device: the equivalent devices,
and the vectors that no peripheral owns, which make a table of their own
(`Device.stepAll_extensions`).
-/

namespace RegisterMap

open Svd Xml

namespace Device

variable {d : Device}

/-! ## Steps without warnings -/

section Steps

variable {step : Device → Node → Outcome Device} {e : Device} {n : Node} {ns ms : List Node}
  {depth : Nat}

theorem stepAll_singleton (step : Device → Node → Outcome Device) (d : Device) (n : Node) :
    d.stepAll step [n] = step d n := rfl

theorem stepAll_append (h : d.stepAll step ns = .pure e) :
    d.stepAll step (ns ++ ms) = e.stepAll step ms := by
  rw [stepAll, List.foldl_append, ← stepAll, h, ← stepAll]

theorem stepAll_cons (step : Device → Node → Outcome Device) (h : step d n = .pure e) :
    d.stepAll step (n :: ns) = e.stepAll step ns := by
  rw [← List.singleton_append]
  exact stepAll_append h

/-- Texts around the nodes of an element change nothing. -/
theorem stepAll_inside (htext : ∀ d s, step d (.text s) = .pure d) (d : Device) (depth : Nat)
    (ns : List Node) : d.stepAll step (Node.inside depth ns) =
      d.stepAll (fun d n => step d (n.laid (depth + 1))) ns := by
  have hpass (o : Outcome Device) (s : String) :
      (o.andThen fun d => step d (.text s)) = o := by
    simp only [htext]
    obtain ⟨d, ws, f⟩ := o
    cases f <;> simp [Outcome.andThen, Outcome.pure]
  have hlaid (depth : Nat) (o : Outcome Device) :
      (Node.laidAll depth ns).foldl (fun o n => o.andThen fun d => step d n) o =
        ns.foldl (fun o n => o.andThen fun d => step d (n.laid depth)) o := by
    induction ns generalizing o with
    | nil => rfl
    | cons n ns ih =>
      rw [Node.laidAll, List.foldl_cons, hpass, List.foldl_cons, List.foldl_cons, ih]
  rw [stepAll, Node.inside, List.foldl_append, hlaid, List.foldl_cons, hpass, List.foldl_nil,
    stepAll]

end Steps

/-! ## Equivalent devices -/

/-- The name of an equivalent device, which is one of a list between commas. -/
@[mk_iff]
structure IsEquivalentName (s : String) : Prop where
  named : s ≠ ""
  verbatim : IsVerbatim s
  no_comma : ',' ∉ s.toList

instance : DecidablePred IsEquivalentName := fun s => decidable_of_iff' _ (isEquivalentName_iff s)

/-- The names of equivalent devices are read from their list. -/
theorem deviceList_intercalate {ss : List String} (h : ∀ s ∈ ss, IsEquivalentName s) :
    deviceList (", ".intercalate ss) = ss := by
  cases ss with
  | nil => rfl
  | cons s rest =>
    obtain ⟨hs, hrest⟩ := List.forall_mem_cons.1 h
    have hparts : Text.parts ',' (", ".intercalate (s :: rest)).toList =
        s.toList :: (rest.map String.toList).map ([' '] ++ ·) := by
      rw [String.toList_intercalate, List.map_cons]
      refine Text.parts_intercalate [' '] (by decide) hs.no_comma fun y hy => ?_
      obtain ⟨t, ht, rfl⟩ := List.mem_map.1 hy
      exact (hrest t ht).no_comma
    have hfirst : Text.trim (.ofList s.toList) = s := by
      rw [String.ofList_toList]
      exact Text.trim_eq_self_iff.2 hs.verbatim.2
    have hlater : ((rest.map String.toList).map ([' '] ++ ·)).map
        (fun p => Text.trim (.ofList p)) = rest := by
      rw [List.map_map, List.map_map]
      refine (List.map_congr_left fun t ht => ?_).trans (List.map_id _)
      have htrim := Text.trim_cons_blank (c := ' ') (by decide) (hrest t ht).verbatim.2
      rwa [String.ofList_toList] at htrim
    have hne : ∀ t ∈ s :: rest, (!t.isEmpty) = true := fun t ht => by simpa using (h t ht).named
    rw [deviceList, hparts, List.map_cons, hfirst, hlater, List.filter_eq_self.2 hne]

theorem isVerbatim_devices {ss : List String} (h : ∀ s ∈ ss, IsEquivalentName s) :
    IsVerbatim (", ".intercalate ss) := by
  refine isVerbatim_intercalate (by decide) (fun s hs => (h s hs).verbatim) ?_
  rw [String.toList_intercalate]
  refine Text.isTrimmed_intercalate_of_ne_nil fun x hx => ?_
  obtain ⟨s, hs, rfl⟩ := List.mem_map.1 hx
  exact ⟨by simpa using (h s hs).named, (h s hs).verbatim.2⟩

/-! ## Vectors without a peripheral -/

/-- The table of the vectors that are written: those that no peripheral owns, but not the
exceptions of the core. There is none without such vectors. -/
def writtenVectors (d : Device) : Option VectorTable :=
  if d.orphans.isEmpty then none else some (.ofList (d.orphans.map Interrupt.settled))

/-- The vectors that are written can be read again, and their indexes increase. -/
@[mk_iff]
structure HasSpelledVectors (d : Device) : Prop where
  spelled : ∀ i ∈ d.orphans, i.IsSpelled
  increasing : (d.orphans.map Interrupt.index).Pairwise (· < ·)

instance : DecidablePred HasSpelledVectors := fun d => decidable_of_iff' _ (hasSpelledVectors_iff d)

/-- Interrupts in order keep their numbers, if none of them asks for the next. -/
theorem numberAll_eq_self {is : List Interrupt} (hown : ∀ i ∈ is, automaticNumber < i.index)
    (last : Int) : numberAll last is = is := by
  induction is generalizing last with
  | nil => rfl
  | cons i is ih =>
    obtain ⟨hi, his⟩ := List.forall_mem_cons.1 hown
    rw [numberAll_cons, ih his, follow, if_pos hi]

theorem forall_increases (last : Int) {is : List Interrupt}
    (hown : ∀ i ∈ is, automaticNumber < i.index) (hlast : ∀ i ∈ is, last < i.index)
    (hsorted : is.Pairwise fun a b => a.index < b.index) :
    ∀ p ∈ stepsFrom last is, increases p = true := by
  induction is generalizing last with
  | nil => simp [stepsFrom, numberAll]
  | cons i is ih =>
    obtain ⟨hi, his⟩ := List.forall_mem_cons.1 hown
    obtain ⟨hlater, hrest⟩ := List.pairwise_cons.1 hsorted
    have hfollow : follow last i.index = i.index := if_pos hi
    rw [stepsFrom_cons, hfollow, List.forall_mem_cons]
    exact ⟨decide_eq_true (hlast i List.mem_cons_self), ih _ his hlater hrest⟩

/-- The node for the vectors is read as their table. -/
theorem stepExtension_interrupts (h : d.HasSpelledVectors) {e : Device} (he : e.vectorTable = none)
    (depth : Nat) :
    e.stepExtension (.element ⟨"", "interrupts"⟩ []
        (Node.inside depth (d.orphans.map Interrupt.toSvd))) =
      .pure { e with vectorTable := d.writtenVectors } := by
  have hyields : ∀ i ∈ d.orphans, Yields (fun _ => Interrupt.ofSvd (some automaticNumber))
      "interrupt" i.toSvd i.settled :=
    fun i hi => Interrupt.yields_toSvd (h.spelled i hi) (some automaticNumber)
  have hread := forall₂_childrenOf hyields depth
  have hpos : ∀ i ∈ d.orphans.map Interrupt.settled, 0 ≤ i.index := by
    intro i hi
    obtain ⟨j, hj, rfl⟩ := List.mem_map.1 hi
    exact of_decide_eq_true (List.mem_filter.1 hj).2
  have hsorted : (d.orphans.map Interrupt.settled).Pairwise
      fun a b : Interrupt => a.index < b.index := by
    rw [List.pairwise_map]
    exact List.pairwise_map.1 h.increasing
  have hown : ∀ i ∈ d.orphans.map Interrupt.settled, automaticNumber < i.index :=
    fun i hi => Int.lt_of_lt_of_le (by decide) (hpos i hi)
  have hincreases := forall_increases numberBeforeFirst hown
    (fun i hi => Int.lt_of_lt_of_le (by decide) (hpos i hi)) hsorted
  have hnone : (stepsFrom numberBeforeFirst (d.orphans.map Interrupt.settled)).find?
      (!increases ·) = none := by
    simpa [List.find?_eq_none] using hincreases
  have hkept : (d.orphans.map Interrupt.settled).filter (0 ≤ ·.index) =
      d.orphans.map Interrupt.settled := by
    simpa [List.filter_eq_self] using hpos
  have hdiscarded : (d.orphans.map Interrupt.settled).filter (·.index < 0) = [] := by
    simpa [List.filter_eq_nil_iff] using hpos
  rw [stepExtension]
  simp only
  rw [addNumbered_eq hread (hasListed_nil he _), accepted_eq_numberAll hincreases,
    numberAll_eq_self hown, hnone, hkept, hdiscarded]
  simp [Outcome.pure, writtenVectors, withListed, VectorTable.ofList?]

/-- The parts of the extensions of a device. -/
def extensionParts (d : Device) : List Node :=
  (if d.equivalentDevices.isEmpty then []
    else [Node.leaf "equivalentDevices" (", ".intercalate d.equivalentDevices)]) ++
  (if d.orphans.isEmpty then [] else [Node.group "interrupts" (d.orphans.map Interrupt.toSvd)])

theorem extensionsToSvd_eq (d : Device) :
    d.extensionsToSvd = if d.extensionParts.isEmpty then []
      else [.group "vendorExtensions" d.extensionParts] := rfl

theorem extensionParts_sound (hdevices : ∀ s ∈ d.equivalentDevices, IsEquivalentName s)
    (hvectors : d.HasSpelledVectors) : ∀ n ∈ d.extensionParts, n.IsSound := by
  rw [extensionParts, List.forall_mem_append]
  constructor
  · split
    · nofun
    · exact List.forall_mem_singleton.2 ((isVerbatim_devices hdevices).isSound (by decide))
  · split
    · nofun
    · refine List.forall_mem_singleton.2 (Node.isSound_group (by decide) fun n hn => ?_)
      obtain ⟨i, hi, rfl⟩ := List.mem_map.1 hn
      exact (Interrupt.yields_toSvd (hvectors.spelled i hi) none).1

/-- The extensions of a device are read by one that has none yet. -/
theorem stepAll_extensions (hdevices : ∀ s ∈ d.equivalentDevices, IsEquivalentName s)
    (hvectors : d.HasSpelledVectors) {e : Device} (he : e.equivalentDevices = [])
    (hvectorTable : e.vectorTable = none) (depth : Nat) :
    e.stepAll stepExtension (Node.inside depth d.extensionParts) = .pure
      { e with equivalentDevices := d.equivalentDevices, vectorTable := d.writtenVectors } := by
  let named : Device := { e with equivalentDevices := d.equivalentDevices }
  have hnamed : e.stepAll (fun d n => stepExtension d (n.laid (depth + 1)))
      (if d.equivalentDevices.isEmpty then []
        else [.leaf "equivalentDevices" (", ".intercalate d.equivalentDevices)]) =
      .pure named := by
    split
    · rename_i hnone
      have hsame : named = e := by
        cases e
        cases he
        simp [named, List.isEmpty_iff.1 hnone]
      rw [hsame]
      rfl
    · rw [stepAll_singleton, Node.laid_leaf, stepExtension]
      simp only [(isVerbatim_devices hdevices).textOf, deviceList_intercalate hdevices]
      rfl
  rw [stepAll_inside (fun _ _ => rfl), extensionParts, stepAll_append hnamed]
  split
  · rename_i hnone
    have hsame : ({ named with vectorTable := d.writtenVectors } : Device) = named := by
      rw [writtenVectors, if_pos hnone, ← hvectorTable]
    exact congrArg Outcome.pure hsame.symm
  · rw [stepAll_singleton, Node.group, Node.laid_of_isSound fun n hn => ?_]
    · exact stepExtension_interrupts hvectors (e := named) hvectorTable _
    · obtain ⟨i, hi, rfl⟩ := List.mem_map.1 hn
      exact (Interrupt.yields_toSvd (hvectors.spelled i hi) none).1

end Device

end RegisterMap
