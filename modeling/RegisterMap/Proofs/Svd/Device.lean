import RegisterMap.Proofs.Derivation
import RegisterMap.Proofs.Svd.Extensions

/-!
# Devices that were written

The root of the document for a device that is spelled so that it can be read (`Device.IsSpelled`) is
read as `Device.settled` (`Device.stepAll_root`): peripherals one behind the other, each derived one
behind its source, and the extensions last.
-/

namespace RegisterMap

open Svd Xml

/-! ## Processors -/

namespace Cpu

variable {c : Cpu}

/-- The texts are read as they are, and the number fits. -/
@[mk_iff]
structure IsSpelled (c : Cpu) : Prop where
  name : IsVerbatim c.name
  revision : IsVerbatim c.revision
  endian : IsVerbatim c.endian
  nvicPrioBits : c.nvicPrioBits < Bits.limit 32

instance : DecidablePred IsSpelled := fun c => decidable_of_iff' _ (isSpelled_iff c)

theorem yields_toSvd (h : c.IsSpelled) : Yields (fun _ => ofSvd) "cpu" c.toSvd c := by
  obtain ⟨hname, hrevision, hendian, hbits⟩ := h
  let step₁ : Cpu := { name := c.name }
  let step₂ : Cpu := { step₁ with revision := c.revision }
  let step₃ : Cpu := { step₂ with endian := c.endian }
  let step₄ : Cpu := { step₃ with mpuPresent := c.mpuPresent }
  let step₅ : Cpu := { step₄ with fpuPresent := c.fpuPresent }
  let step₆ : Cpu := { step₅ with vtorPresent := c.vtorPresent }
  let step₇ : Cpu := { step₆ with nvicPrioBits := c.nvicPrioBits }
  refine .group (by decide) ?_ fun depth => ReadsAll.inside ?_ fun _ _ => rfl
  · simp only [List.forall_mem_cons]
    exact ⟨hname.isSound (by decide), hrevision.isSound (by decide), hendian.isSound (by decide),
      isSound_truth (by decide) _, isSound_truth (by decide) _, isSound_truth (by decide) _,
      isSound_decimal (by decide) _, isSound_truth (by decide) _, nofun⟩
  · refine .cons (t := step₁) (.leaf hname fun cs hcs => ?_) <|
      .cons (t := step₂) (.leaf hrevision fun cs hcs => ?_) <|
      .cons (t := step₃) (.leaf hendian fun cs hcs => ?_) <|
      .cons (t := step₄) (.truth fun cs hcs => ?_) <|
      .cons (t := step₅) (.truth fun cs hcs => ?_) <|
      .cons (t := step₆) (.truth fun cs hcs => ?_) <|
      .cons (t := step₇) (.decimal32 hbits fun cs hcs => ?_) <|
      .cons (.truth fun cs hcs => ?_) (.nil c)
    all_goals
      simp [stepSvd, hcs, bind, Except.bind, pure, Except.pure, step₁, step₂, step₃, step₄, step₅,
        step₆, step₇]

end Cpu

namespace Device

variable {d : Device} {common : Bool}

/-- Each derived peripheral has its source in front of it, a peripheral that is not derived, and the
registers of the others find their sources. -/
@[mk_iff]
structure FindsSources (d : Device) : Prop where
  peripherals : ∀ i, ∀ h : i < d.peripherals.length, ∀ s ∈ d.peripherals[i].derivedFrom,
    ∃ g ∈ (d.peripherals.take i).find? (·.name == s), g.derivedFrom = none
  registers : ∀ p ∈ d.peripherals, p.derivedFrom = none →
    Element.findSources [] [] p.registers = true

instance : DecidablePred FindsSources := fun d => decidable_of_iff' _ (findsSources_iff d)

/-- The texts of the device are read as they are, the numbers fit, and its parts, apart from the
vectors, can be read. -/
@[mk_iff]
structure IsSpelled (common : Bool) (d : Device) : Prop where
  named : d.name ≠ ""
  name : IsVerbatim d.name
  version : IsVerbatim d.version
  description : IsVerbatim d.description
  equivalentDevices : ∀ s ∈ d.equivalentDevices, IsEquivalentName s
  addressUnitBits : d.addressUnitBits < Bits.limit 32
  defaults : d.defaults.FitsWords
  cpu : ∀ c ∈ d.cpu, c.IsSpelled
  peripherals : ∀ p ∈ d.peripherals, p.IsSpelled common
  distinct : d.HasDistinctNames

instance (common : Bool) : DecidablePred (IsSpelled common) :=
  fun d => decidable_of_iff' _ (isSpelled_iff common d)

/-- The peripheral of the device as it is read again. -/
def settledPeripheral (d : Device) (p : Peripheral) : Peripheral :=
  match p.derivedFrom.bind d.find? with
  | some source => p.settledFrom source
  | none => p.settledAlone

/-- The device as it is read again. -/
def settled (d : Device) : Device :=
  { d with
    peripherals := d.peripherals.map d.settledPeripheral, vectorTable := d.writtenVectors }

/-! ## Peripherals -/

section Peripherals

variable {e : Device} {p g : Peripheral} {done rest : List Peripheral} {source : String}

@[simp] theorem name_settledPeripheral (d : Device) (p : Peripheral) :
    (d.settledPeripheral p).name = p.name := by
  unfold settledPeripheral
  split <;> rfl

@[simp] theorem derivedFrom_settledPeripheral (d : Device) (p : Peripheral) :
    (d.settledPeripheral p).derivedFrom = p.derivedFrom := by
  unfold settledPeripheral
  split <;> rfl

theorem settledPeripheral_of_none (d : Device) (h : p.derivedFrom = none) :
    d.settledPeripheral p = p.settledAlone := by
  rw [settledPeripheral, h, Option.bind_none]

theorem find?_map_settledPeripheral (d : Device) (ps : List Peripheral) (name : String) :
    (ps.map d.settledPeripheral).find? (·.name == name) =
      (ps.find? (·.name == name)).map d.settledPeripheral := by
  rw [List.find?_map]
  simp only [Function.comp_def, name_settledPeripheral]

/-- The source of a derived peripheral is among those in front of it. -/
theorem FindsSources.exists_source (h : d.FindsSources)
    (hsplit : d.peripherals = done ++ p :: rest) (hp : p.derivedFrom = some source) :
    ∃ g, done.find? (·.name == source) = some g ∧ g.derivedFrom = none ∧ g.name = source ∧
      g ∈ d.peripherals ∧ d.find? source = some g := by
  have hlt : done.length < d.peripherals.length := by simp [hsplit]
  obtain ⟨g, hg, hown⟩ := h.peripherals done.length hlt source (by simpa [hsplit] using hp)
  have hg : done.find? (·.name == source) = some g := by simpa [hsplit] using hg
  refine ⟨g, hg, hown, by simpa using List.find?_some hg, ?_, ?_⟩
  · rw [hsplit]
    exact List.mem_append_left _ (List.mem_of_find?_eq_some hg)
  · rw [find?, hsplit, List.find?_append, hg, Option.some_or]

/-- A peripheral is read from its element behind those in front of it. -/
theorem yields_peripheralToSvd (h : d.IsSpelled common) (hsources : d.FindsSources)
    (he : e.defaults = d.defaults) (hsplit : d.peripherals = done ++ p :: rest) :
    Yields (Peripheral.ofSvd common { e with peripherals := done.map d.settledPeripheral })
      "peripheral" (d.peripheralToSvd p) (d.settledPeripheral p) := by
  have hmem : p ∈ d.peripherals := by simp [hsplit]
  have hspelled := h.peripherals p hmem
  cases hp : p.derivedFrom with
  | none =>
    rw [settledPeripheral_of_none d hp, peripheralToSvd, hp, Option.bind_none, ← he]
    exact Peripheral.yields_toSvd { e with peripherals := done.map d.settledPeripheral } hspelled hp
      (hsources.registers p hmem hp)
  | some source =>
    obtain ⟨g, hg, hown, rfl, hmem, hfind⟩ := hsources.exists_source hsplit hp
    rw [settledPeripheral, peripheralToSvd, hp, Option.bind_some, hfind]
    refine Peripheral.yields_derivedToSvd hspelled hp hown ?_ (h.peripherals g hmem).common
    rw [find?, find?_map_settledPeripheral, hg, Option.map_some, settledPeripheral_of_none d hown]

/-- A peripheral that was read is added to those in front of it. -/
theorem addPeripheral_settled (h : d.IsSpelled common) (hsources : d.FindsSources) (e : Device)
    (hsplit : d.peripherals = done ++ p :: rest) :
    addPeripheral { e with peripherals := done.map d.settledPeripheral } (d.settledPeripheral p) =
      .ok { e with peripherals := (done ++ [p]).map d.settledPeripheral } := by
  have hnew : done.find? (·.name == p.name) = none := by
    rw [List.find?_eq_none]
    intro q hq hname
    have hdistinct := h.distinct
    rw [HasDistinctNames, hsplit, List.map_append, List.map_cons] at hdistinct
    exact List.disjoint_of_nodup_append hdistinct (List.mem_map_of_mem hq)
      (by simp [beq_iff_eq.1 hname])
  have hfind : ({ e with peripherals := done.map d.settledPeripheral } : Device).find?
      (d.settledPeripheral p).name = none := by
    rw [find?, find?_map_settledPeripheral, name_settledPeripheral, hnew, Option.map_none]
  have hend : ({ e with peripherals := done.map d.settledPeripheral ++ [d.settledPeripheral p] } :
      Device) = { e with peripherals := (done ++ [p]).map d.settledPeripheral } := by
    rw [List.map_append, List.map_singleton]
  rw [addPeripheral, hfind, ← hend]
  cases hp : p.derivedFrom with
  | none =>
    have hown : (d.settledPeripheral p).isDerived = false := by
      rw [Peripheral.isDerived, derivedFrom_settledPeripheral, hp, Option.isSome_none]
    simp only [Option.isSome_none, hown, Bool.false_eq_true, if_false, bind, Except.bind, pure,
      Except.pure]
  | some source =>
    obtain ⟨g, hg, hown, rfl, -, hsource⟩ := hsources.exists_source hsplit hp
    have hderived : (d.settledPeripheral p).isDerived = true := by
      rw [Peripheral.isDerived, derivedFrom_settledPeripheral, hp, Option.isSome_some]
    have hregisters : (d.settledPeripheral p).registers = [] := by
      rw [settledPeripheral, hp, Option.bind_some, hsource]
      rfl
    have hresolve : ({ e with peripherals := done.map d.settledPeripheral } : Device).resolve
        (d.settledPeripheral p) = .ok (d.settledPeripheral g) := by
      have hfound : ({ e with peripherals := done.map d.settledPeripheral } : Device).find? g.name =
          some (d.settledPeripheral g) := by
        rw [find?, find?_map_settledPeripheral, hg, Option.map_some]
      have hkept : (d.settledPeripheral g).isDerived = false := by
        rw [Peripheral.isDerived, derivedFrom_settledPeripheral, hown, Option.isSome_none]
      rw [resolve, derivedFrom_settledPeripheral, hp]
      simp only [hfound, Option.filter_some, hkept, Bool.not_false, if_true]
    simp only [Option.isSome_none, hderived, hresolve, hregisters, within_ok, List.isEmpty_nil,
      Bool.not_true, Bool.false_eq_true, if_false, if_true, bind, Except.bind, pure, Except.pure]
    rfl

/-- The peripherals of the list are read one behind the other. -/
theorem readsAll_peripherals (h : d.IsSpelled common) (hsources : d.FindsSources)
    (he : e.defaults = d.defaults) (hnone : e.peripherals = []) (depth : Nat) :
    ReadsAll (stepPeripheral common) depth e (d.peripherals.map d.peripheralToSvd)
      { e with peripherals := d.peripherals.map d.settledPeripheral } := by
  let st (done : List Peripheral) : Device :=
    { e with peripherals := done.map d.settledPeripheral }
  have hstart : e = st [] := by
    cases e
    cases hnone
    rfl
  rw [hstart]
  refine ReadsAll.map st fun done p rest hsplit => ?_
  refine (yields_peripheralToSvd h hsources he hsplit).reads fun as cs hcs => ?_
  simp only [stepPeripheral, beq_self_eq_true, if_true, st, hcs, bind, Except.bind,
    addPeripheral_settled h hsources e hsplit]

theorem isSound_peripherals (h : d.IsSpelled common) (hsources : d.FindsSources) :
    ∀ n ∈ d.peripherals.map d.peripheralToSvd, n.IsSound := by
  intro n hn
  obtain ⟨p, hp, rfl⟩ := List.mem_map.1 hn
  obtain ⟨done, rest, hsplit⟩ := List.append_of_mem hp
  exact (yields_peripheralToSvd (e := d) h hsources rfl hsplit).1

end Peripherals

/-! ## Roots -/

section Roots

variable {e : Device} {n : Node} {ns : List Node} {depth : Nat}

/-- One more part of the root, which is none of the extensions. -/
def stepHead (common : Bool) (d : Device) : Node → Except Failure Device
  | .element name _ children => d.stepPart common name.base children
  | _ => .ok d

theorem stepSvd_of_stepHead (h : stepHead common d n = .ok e) : stepSvd common d n = .pure e := by
  cases n with
  | element name as cs =>
    rw [stepHead] at h
    have hne : (name.base == "vendorExtensions") = false := by
      refine beq_false_of_ne fun heq => ?_
      rw [heq] at h
      cases h
    rw [stepSvd, hne, if_neg Bool.false_ne_true, h]
    rfl
  | _ =>
    cases h
    rfl

theorem stepAll_of_readsAll (h : ReadsAll (stepHead common) depth d ns e) :
    d.stepAll (fun d n => stepSvd common d (n.laid depth)) ns = .pure e := by
  induction ns generalizing d with
  | nil =>
    cases h
    rfl
  | cons n ns ih =>
    rw [ReadsAll, List.foldlM_cons, bind_eq_ok] at h
    obtain ⟨d', hd, hrest⟩ := h
    rw [stepAll_cons (fun d n => stepSvd common d (n.laid depth)) (stepSvd_of_stepHead hd)]
    exact ih hrest

/-- The parts of the root in front of the extensions. -/
def head (d : Device) : List Node :=
  [.leaf "name" d.name, .leaf "version" d.version] ++ unlessEmpty "description" d.description ++
    (d.cpu.map Cpu.toSvd).toList ++
    [decimal "addressUnitBits" d.addressUnitBits, decimal "width" d.width] ++
    d.defaults.toSvd none ++ [.group "peripherals" (d.peripherals.map d.peripheralToSvd)]

theorem toSvd_eq (d : Device) :
    d.toSvd = .element ⟨"", "device"⟩ schema (d.head ++ d.extensionsToSvd) := rfl

theorem isSound_head (h : d.IsSpelled common) (hsources : d.FindsSources) :
    ∀ n ∈ d.head, n.IsSound := by
  simp only [head, List.forall_mem_append, List.forall_mem_cons]
  refine ⟨⟨⟨⟨⟨⟨h.name.isSound (by decide), h.version.isSound (by decide), nofun⟩,
    isSound_unlessEmpty (by decide) h.description⟩, ?_⟩,
    isSound_decimal (by decide) _, isSound_decimal (by decide) _, nofun⟩,
    isSound_defaults _ _⟩,
    Node.isSound_group (by decide) (isSound_peripherals h hsources), nofun⟩
  intro n hn
  obtain ⟨c, hc, rfl⟩ := Option.map_eq_some_iff.1 (Option.mem_toList.1 hn)
  exact (Cpu.yields_toSvd (h.cpu c hc)).1

/-- What the root tells in front of its extensions is read into a device without any. -/
theorem readsAll_head (h : d.IsSpelled common) (hsources : d.FindsSources) (depth : Nat) :
    ReadsAll (stepHead common) depth { name := "" } d.head
      { d.settled with equivalentDevices := [], vectorTable := none } := by
  obtain ⟨hwidth, hvalue, hmask⟩ := h.defaults
  let titled : Device := { name := d.name, version := d.version }
  let described : Device := { titled with description := d.description }
  let cored : Device := { described with cpu := d.cpu }
  let sized : Device := { cored with addressUnitBits := d.addressUnitBits, width := d.width }
  let put (e : Defaults) : Device :=
    { sized with
      width := e.width, access := e.access, resetValue := e.resetValue, resetMask := e.resetMask }
  have htitled : ReadsAll (stepHead common) depth { name := "" }
      [.leaf "name" d.name, .leaf "version" d.version] titled := by
    refine .cons (t := { name := d.name }) (.leaf h.name fun cs hcs => ?_)
      (Reads.singleton (.leaf h.version fun cs hcs => ?_)) <;>
    simp [stepHead, stepPart, hcs, titled]
  have hdescribed : ReadsAll (stepHead common) depth titled
      (unlessEmpty "description" d.description) described := by
    refine .unlessEmpty (.leaf h.description fun cs hcs => ?_) fun he => ?_
    · simp [stepHead, stepPart, hcs, described]
    · simp [titled, described, he]
  have hcored : ReadsAll (stepHead common) depth described (d.cpu.map Cpu.toSvd).toList cored := by
    cases hc : d.cpu with
    | none =>
      have : cored = described := by simp [cored, described, hc, titled]
      rw [this]
      exact .nil _
    | some c =>
      refine Reads.singleton ((Cpu.yields_toSvd (h.cpu c hc)).reads fun as cs hcs => ?_)
      simp [stepHead, stepPart, hcs, bind, Except.bind, pure, Except.pure, cored, hc]
  have hsized : ReadsAll (stepHead common) depth cored
      [decimal "addressUnitBits" d.addressUnitBits, decimal "width" d.width] sized := by
    refine .cons (t := { cored with addressUnitBits := d.addressUnitBits })
      (.decimal32 h.addressUnitBits fun cs hcs => ?_)
      (Reads.singleton (.decimal32 hwidth fun cs hcs => ?_)) <;>
    simp [stepHead, stepPart, hcs, bind, Except.bind, pure, Except.pure, sized]
  have hdefaults : ReadsAll (stepHead common) depth (put sized.defaults) (d.defaults.toSvd none)
      (put d.defaults) := by
    refine .defaults put (fun e => .decimal32 hwidth fun cs hcs => ?_)
      (fun e => .access fun cs hcs => ?_) (fun e => .hex hvalue fun cs hcs => ?_)
      (fun e => .hex hmask fun cs hcs => ?_) nofun <;>
    simp [stepHead, stepPart, hcs, bind, Except.bind, pure, Except.pure, put]
  have hgroup : Reads (stepHead common) depth (put d.defaults)
      (.group "peripherals" (d.peripherals.map d.peripheralToSvd))
      { d.settled with equivalentDevices := [], vectorTable := none } := by
    rw [Reads, Node.group, Node.laid_of_isSound (isSound_peripherals h hsources)]
    have hall := readsAll_peripherals (e := put d.defaults) h hsources rfl rfl
    exact (hall (depth + 1)).inside fun _ _ => rfl
  exact (((((htitled.append hdescribed).append hcored).append hsized).append hdefaults).append
    hgroup.singleton)

/-- The root is read as the device that is settled. -/
theorem stepAll_root (h : d.IsSpelled common) (hsources : d.FindsSources)
    (hvectors : d.HasSpelledVectors) (depth : Nat) :
    stepAll (stepSvd common) { name := "" } (Node.inside depth (d.head ++ d.extensionsToSvd)) =
      .pure d.settled := by
  have hhead := stepAll_of_readsAll (readsAll_head h hsources (depth + 1))
  rw [stepAll_inside (fun _ _ => rfl), stepAll_append hhead, extensionsToSvd_eq]
  let bare : Device := { d.settled with equivalentDevices := [], vectorTable := none }
  have hextended := stepAll_extensions h.equivalentDevices hvectors (e := bare) rfl rfl (depth + 1)
  split
  · rename_i hnone
    rw [List.isEmpty_iff.1 hnone] at hextended
    exact hextended
  · rw [stepAll_singleton, Node.group,
      Node.laid_of_isSound (extensionParts_sound h.equivalentDevices hvectors)]
    exact hextended

/-- The document of a device is read as its root. -/
theorem ofText?_svdText (h : d.IsSpelled common) (hsources : d.FindsSources)
    (hvectors : d.HasSpelledVectors) :
    Node.ofText? d.svdText = some (.element ⟨"", "device"⟩ schema
      (Node.inside 0 (d.head ++ d.extensionsToSvd))) := by
  have hsound : ∀ n ∈ d.head ++ d.extensionsToSvd, n.IsSound := by
    refine List.forall_mem_append.2 ⟨isSound_head h hsources, ?_⟩
    rw [extensionsToSvd_eq]
    split
    · nofun
    · exact List.forall_mem_singleton.2 (Node.isSound_group (by decide)
        (extensionParts_sound h.equivalentDevices hvectors))
  let root : Node := .element ⟨"", "device"⟩ schema (d.head ++ d.extensionsToSvd)
  have hplain : root.isPlain = true := by
    rw [Node.isPlain_several (Node.ne_text_of_isSound hsound),
      Node.arePlain_eq_true_iff.2 fun n hn => (hsound n hn).1]
    decide
  have hresolved : root.isResolved [] = true := by
    rw [Node.isResolved, Node.areAllResolved_eq_true_iff.2 fun n hn => (hsound n hn).2 _]
    decide
  rw [svdText, toSvd_eq, Node.ofText?_document hplain hresolved, Node.laid_of_isSound hsound]

end Roots

end Device

end RegisterMap
