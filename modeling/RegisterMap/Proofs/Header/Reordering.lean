import Mathlib
import RegisterMap.Proofs.Header.Definitions
import RegisterMap.Proofs.Header.Mapping
import RegisterMap.Proofs.Layout.Outline
import RegisterMap.Proofs.Reordering

/-!
# Headers of reordered devices

The header does not depend on the order in which a device is described (`Header.render_reordered`).
What a header tells of a peripheral it tells of its registers in layout order
(`Header.render_sortRegisters`), and that order is the same for all descriptions; peripherals are
found by their names and written in the order of their names (`Header.render_perm`).
-/

namespace RegisterMap

/-! ## Registers in layout order -/

namespace AccessMacro

open Element

theorem ofElement_sortWithin (s : Settings) (peripheral : String) (e : Element) :
    ofElement s peripheral e.sortWithin = ofElement s peripheral e := by
  cases e with
  | register r => rfl
  | cluster c es =>
    have hvisible : visible? ∘ sortWithin = visible? := by
      funext e
      cases e <;> rfl
    have hmembers : (sortLevel (sortAll es)).filterMap visible? =
        (sortLevel es).filterMap visible? := by
      rw [sortAll, sortLevel_sortLevel, ← sortAll, sortAll_eq_map, List.filterMap_map, hvisible]
    show ofElement s peripheral (.cluster c (sortAll es)) = _
    simp only [ofElement, flags, ofCluster, hmembers]

theorem ofPeripheral_sort (s : Settings) (p owner : Peripheral) :
    ofPeripheral s p owner.sort = ofPeripheral s p owner := by
  have hmacros : (sortLevel (sortAll owner.registers)).flatMap (ofElement s p.name) =
      (sortLevel owner.registers).flatMap (ofElement s p.name) := by
    rw [sortAll, sortLevel_sortLevel, ← sortAll, sortAll_eq_map, List.flatMap_map]
    exact List.flatMap_congr fun e _ => ofElement_sortWithin s p.name e
  rw [ofPeripheral, Peripheral.sort, hmacros, ofPeripheral]

end AccessMacro

theorem Peripheral.fieldsOf_sort {p : Peripheral} (h : Element.HasDistinctNames p.registers)
    (r : Register) : p.sort.fieldsOf r = p.fieldsOf r := by
  unfold fieldsOf
  simp only [Peripheral.sort, h.findIn?_sortAll]

theorem FieldMacro.ofPeripheral_sort (s : Settings) {p : Peripheral}
    (h : Element.HasDistinctNames p.registers) (defined : DefinedMacros) :
    ofPeripheral s p.sort defined = ofPeripheral s p defined := by
  have hbits : KeepsBits id id :=
    ⟨fun _ => rfl, fun _ => rfl, fun _ => rfl, fun _ => rfl, fun _ => rfl, fun _ => rfl,
      fun _ => rfl⟩
  have hregisters (rs : List Register) :
      ofRegisters s p.sort defined rs = ofRegisters s p defined rs := by
    have hmap := ofRegisters_map (p := p) (q := p.sort) hbits rfl s (fun r => ?_) defined rs
    · rwa [List.map_id] at hmap
    · rw [id, Peripheral.fieldsOf_sort h, List.map_id_fun]
      cases p.fieldsOf r <;> rfl
  have horder : Element.registersAll (Element.sortAll p.sort.registers) =
      Element.registersAll (Element.sortAll p.registers) :=
    congrArg Element.registersAll (Element.sortAll_sortAll p.registers)
  rw [ofPeripheral, ofPeripheral, hregisters, horder]
  rfl

/-- The device with the registers of its peripherals in layout order. -/
def Device.sortRegisters (d : Device) : Device :=
  { d with peripherals := d.peripherals.map Peripheral.sort }

namespace Header

variable {d e : Device}

/-- The header of a device is that of the device with its registers in layout order. -/
theorem render_sortRegisters (s : Settings)
    (hnames : ∀ p ∈ d.peripherals, Element.HasDistinctNames p.registers) :
    render s d.sortRegisters = render s d := by
  have hsort : Peripheral.KeepsIdentity Peripheral.sort :=
    ⟨fun _ => rfl, fun _ => rfl, fun _ => rfl, fun _ => rfl, fun _ => rfl, fun _ => rfl⟩
  have happend {a b a' b' : List Part} (h : a = b) (h' : a' = b') : a ++ a' = b ++ b' := by
    rw [h, h']
  have hparts : Agree Eq (parts s d.sortRegisters) (parts s d) := by
    refine parts_agree happend hsort rfl rfl rfl rfl (fun p hp w => ?_) fun _ _ => rfl
    refine peripheral_agree happend hsort rfl rfl w rfl (fun source name group _ _ _ => ?_)
      (fun source defined hsource => ?_) fun source _ => AccessMacro.ofPeripheral_sort s _ source
    · have hmembers : membersOf s source.sort.registers = membersOf s source.registers := by
        rw [membersOf, Peripheral.sort, layout_sortAll, membersOf]
      rw [hmembers]
      exact .of_ensures fun _ _ => rfl
    · have hmem := d.mem_of_resolve (mem_included.1 hp).1 hsource
      rw [FieldMacro.ofPeripheral_sort s (hnames source hmem)]
      exact .of_ensures fun _ _ => ⟨rfl, rfl⟩
  rw [render, hparts.eq, render]

end Header

/-! ## Peripherals in another order -/

section Permutation

variable {d e : Device}

namespace Device

theorem resolve_of_find?_eq (hfind : e.find? = d.find?) : e.resolve = d.resolve := by
  funext p
  rw [resolve, hfind, resolve]

theorem structName_of_find?_eq (hfind : e.find? = d.find?) : e.structName = d.structName := by
  funext p common
  rw [structName, resolve_of_find?_eq hfind, structName]

theorem groupName_of_find?_eq (hfind : e.find? = d.find?) : e.groupName = d.groupName := by
  funext p
  rw [groupName, resolve_of_find?_eq hfind, groupName]

end Device

namespace Header

open Device

theorem peripheral_of_find?_eq (hfind : e.find? = d.find?) (s : Settings) :
    peripheral s e = peripheral s d := by
  have htypedef : typedef s e = typedef s d := by
    funext p source name w
    rw [typedef, groupName_of_find?_eq hfind, typedef]
  funext p w
  rw [peripheral, resolve_of_find?_eq hfind, structName_of_find?_eq hfind, htypedef, peripheral]

theorem peripherals_of_find?_eq (hfind : e.find? = d.find?) (s : Settings) (ps : List Peripheral)
    (w : Written) : peripherals s e ps w = peripherals s d ps w := by
  induction ps generalizing w with
  | nil => rfl
  | cons p ps ih => simp only [peripherals, peripheral_of_find?_eq hfind, ih]

theorem included_perm (hnames : d.HasDistinctNames) (h : d.peripherals.Perm e.peripherals)
    (s : Settings) : included s e = included s d := by
  have hperm : (included s e).Perm (included s d) :=
    (List.mergeSort_perm _ _).trans ((h.symm.filter _).trans (List.mergeSort_perm _ _).symm)
  have hsorted (d : Device) : (included s d).Pairwise fun p q => p.name ≤ q.name := by
    refine (List.pairwise_mergeSort (fun p q r hpq hqr => ?_) (fun p q => ?_) _).imp fun h =>
      of_decide_eq_true h
    · exact decide_eq_true (String.le_trans (of_decide_eq_true hpq) (of_decide_eq_true hqr))
    · simpa using String.le_total p.name q.name
  refine hperm.eq_of_pairwise (fun p q hp hq hpq hqp => ?_) (hsorted e) (hsorted d)
  exact hnames.eq_of_name_eq (mem_included.1 (hperm.mem_iff.1 hp)).1 (mem_included.1 hq).1
    (String.le_antisymm hpq hqp)

/-- Peripherals of different names can be described in any order. -/
theorem render_perm (s : Settings) (hnames : d.HasDistinctNames)
    (h : d.peripherals.Perm e.peripherals) (hrest : e = { d with peripherals := e.peripherals }) :
    render s e = render s d := by
  have hfind : e.find? = d.find? := funext fun name => find?_key_perm hnames h name
  have hfront : front e = front d := by
    rw [hrest]
    rfl
  have hback : back e = back d := by
    rw [hrest]
    rfl
  have hpointers : pointersOf s e = pointersOf s d := by
    unfold pointersOf
    rw [structName_of_find?_eq hfind]
  rw [render, parts_eq, included_perm hnames h, peripherals_of_find?_eq hfind, hpointers, hfront,
    hback, ← parts_eq, render]

end Header

end Permutation

/-! ## Devices in another order -/

theorem Peripheral.Reordered.sort_eq {p q : Peripheral} (h : p.Reordered q)
    (hplaces : Element.HasDistinctPlaces p.registers) : q.sort = p.sort := by
  rw [h.rest]
  exact congrArg (fun es => { p with registers := es }) (h.registers.sortAll_eq hplaces)

theorem Peripheral.map_sort_of_reordered {ps qs : List Peripheral}
    (h : List.Forall₂ Peripheral.Reordered ps qs)
    (hplaces : ∀ p ∈ ps, Element.HasDistinctPlaces p.registers) :
    qs.map Peripheral.sort = ps.map Peripheral.sort := by
  induction h with
  | nil => rfl
  | cons hp _ ih =>
    obtain ⟨hhead, htail⟩ := List.forall_mem_cons.1 hplaces
    rw [List.map_cons, List.map_cons, hp.sort_eq hhead, ih htail]

theorem Device.Reordered.sortRegisters_perm {d e : Device} (h : d.Reordered e)
    (hplaces : ∀ p ∈ d.peripherals, Element.HasDistinctPlaces p.registers) :
    d.sortRegisters.peripherals.Perm e.sortRegisters.peripherals := by
  obtain ⟨ps, hps, hperm⟩ := h.peripherals
  have hsorted := hperm.map Peripheral.sort
  rw [Peripheral.map_sort_of_reordered hps hplaces] at hsorted
  exact hsorted

theorem Device.Reordered.registers {d e : Device} (h : d.Reordered e) {q : Peripheral}
    (hq : q ∈ e.peripherals) :
    ∃ p ∈ d.peripherals, Element.ReorderedAll p.registers q.registers := by
  obtain ⟨ps, hps, hperm⟩ := h.peripherals
  obtain ⟨p, hp, hpq⟩ := exists_mem_of_forall₂ hps (hperm.mem_iff.2 hq)
  exact ⟨p, hp, hpq.registers⟩

theorem Device.HasDistinctNames.sortRegisters {d : Device} (h : d.HasDistinctNames) :
    d.sortRegisters.HasDistinctNames := by
  unfold HasDistinctNames Device.sortRegisters
  rw [List.map_map]
  exact h

/-- The header of a device does not depend on the order of the description: peripherals, registers
and the elements of clusters can come in any order, as long as names tell peripherals and the
registers of each apart, and no two elements of one list have the same place. -/
theorem Header.render_reordered (s : Settings) {d e : Device} (h : d.Reordered e)
    (hnames : d.HasDistinctNames)
    (hregisters : ∀ p ∈ d.peripherals, Element.HasDistinctNames p.registers)
    (hplaces : ∀ p ∈ d.peripherals, Element.HasDistinctPlaces p.registers) :
    render s e = render s d := by
  have hregisters' : ∀ q ∈ e.peripherals, Element.HasDistinctNames q.registers := by
    intro q hq
    obtain ⟨p, hp, hpq⟩ := h.registers hq
    exact hpq.hasDistinctNames (hregisters p hp)
  have hrest : e.sortRegisters = { d.sortRegisters with
      peripherals := e.sortRegisters.peripherals } := by
    rw [h.rest]
    rfl
  calc render s e = render s e.sortRegisters := (render_sortRegisters s hregisters').symm
    _ = render s d.sortRegisters :=
      render_perm s hnames.sortRegisters (h.sortRegisters_perm hplaces) hrest
    _ = render s d := render_sortRegisters s hregisters

section Example

open Element

private def lowHalf : Register := .plain "LO" 0 16

private def highHalf : Register := .plain "HI" 2 16

private def counterControl : Register := .plain "CTRL" 8 32

private def counter : Peripheral where
  name := "TIM0"
  baseAddress := 0x1000
  registers :=
    [.cluster { name := "CNT" } [.register lowHalf, .register highHalf], .register counterControl]

private def secondCounter : Peripheral where
  name := "TIM1"
  baseAddress := 0x2000
  derivedFrom := some "TIM0"

/-- A counter and a second one with its registers. -/
private def counters : Device where
  name := "K10"
  peripherals := [counter, secondCounter]

/-- The counter with the elements of its cluster, and of its own, in the other order. -/
private def counterBackwards : Peripheral :=
  { counter with
    registers :=
      [.register counterControl,
        .cluster { name := "CNT" } [.register highHalf, .register lowHalf]] }

private def countersBackwards : Device :=
  { counters with peripherals := [secondCounter, counterBackwards] }

private theorem reordered_counters : counters.Reordered countersBackwards := by
  refine ⟨⟨[counterBackwards, secondCounter], .cons ⟨?_, rfl⟩ (.cons ⟨.nil, rfl⟩ .nil),
    .swap ..⟩, rfl⟩
  exact .trans (.cons (.cluster _ (.of_perm (.swap ..))) (.refl _)) (.of_perm (.swap ..))

private theorem exists_render_counters : ∃ text, Header.render {} counters = .ok text := by
  have hgroup : counters.groupName counter = .ok "TIM" := by cbv
  have hmacros : (FieldMacro.ofPeripheral {} counter []).toOption.isSome = true := by cbv
  have hlayout : layout counter.registers = .ok [.cluster { name := "CNT" } 0 4
      [.register lowHalf 0, .register highHalf 2], .reserved 4 4, .register counterControl 8] := by
    cbv
  obtain ⟨members, hmembers⟩ : ∃ members, Header.structMembers {} counter = .ok members := by
    rw [Header.structMembers, hlayout]
    exact ⟨_, rfl⟩
  have hname : counters.structName counter true = .ok "TIM0" := by cbv
  have hshared : counters.structName secondCounter true = .ok "TIM0" := by cbv
  obtain ⟨out, hrun⟩ := Header.exists_run_of_derived (s := {}) rfl hname hgroup hmembers hmacros
    (q := secondCounter) rfl hshared
  have hincluded : Header.included {} counters = [counter, secondCounter] :=
    List.mergeSort_of_pairwise (by decide +kernel)
  rw [← hincluded] at hrun
  exact Header.exists_render_of_run hrun

theorem Header.render_reordered_counters :
    ∃ text, render {} counters = .ok text ∧ render {} countersBackwards = .ok text := by
  obtain ⟨text, htext⟩ := exists_render_counters
  have hnames : counters.HasDistinctNames := by decide
  have hregisters : ∀ p ∈ counters.peripherals, HasDistinctNames p.registers := by decide
  have hplaces : ∀ p ∈ counters.peripherals, HasDistinctPlaces p.registers := by decide
  refine ⟨text, htext, ?_⟩
  rw [render_reordered {} reordered_counters hnames hregisters hplaces, htext]

end Example

end RegisterMap
