import RegisterMap.Proofs.Svd.Element
import RegisterMap.Svd.Peripheral

/-!
# Peripherals that were written

A peripheral is read from its element as `Peripheral.settledAlone`. One that is derived has what its
source has wherever the element leaves it out, but none of the registers, address blocks and hints
for them.
-/

namespace RegisterMap

open Svd Xml

/-! ## Interrupts -/

namespace Interrupt

variable {i : Interrupt}

/-- The texts are read as they are, and the number fits. -/
@[mk_iff]
structure IsSpelled (i : Interrupt) : Prop where
  named : i.name ≠ ""
  name : IsVerbatim i.name
  description : IsVerbatim i.description
  low : -(Bits.limit 31 : Int) ≤ i.index
  high : i.index < Bits.limit 31

instance : DecidablePred IsSpelled := fun i => decidable_of_iff' _ (isSpelled_iff i)

/-- The interrupt as it is read again: its handler and its owners are not written. -/
def settled (i : Interrupt) : Interrupt :=
  { index := i.index, name := i.name, description := i.description }

theorem yields_toSvd (h : i.IsSpelled) (missing : Option Int) :
    Yields (fun _ => ofSvd missing) "interrupt" i.toSvd i.settled := by
  obtain ⟨hne, hname, hdescription, hlow, hhigh⟩ := h
  have hverbatim := isVerbatim_toString_int i.index
  have hindex : Numeral.signed (toString i.index) = .ok i.index := by
    have hlimit : Bits.limit 31 < Bits.limit 63 := by decide
    exact Numeral.signed_toString (by omega)
  have hnarrow : Numeral.narrowSigned 32 i.index = .ok i.index :=
    Numeral.narrowSigned_eq_ok hlow hhigh
  have hparts (depth : Nat) : ReadsAll Draft.step depth {}
      ([.leaf "name" i.name] ++ unlessEmpty "description" i.description ++
        [.leaf "value" (toString i.index)])
      { name := i.name, description := i.description, index := some i.index } := by
    refine .append (.append (t := { name := i.name })
      (Reads.singleton (.leaf hname fun cs hcs => ?_))
      (.unlessEmpty (t := { name := i.name, description := i.description })
        (.leaf hdescription fun cs hcs => ?_) fun he => ?_))
      (Reads.singleton (.leaf hverbatim fun cs hcs => ?_))
    · simp [Draft.step, hcs]
    · simp [Draft.step, hcs]
    · rw [he]
    · simp only [Draft.step, hcs, hindex, hnarrow, bind, Except.bind, pure, Except.pure]
  refine .group (by decide) ?_ fun depth => ?_
  · simp only [List.forall_mem_append, List.forall_mem_singleton]
    exact ⟨⟨hname.isSound (by decide), isSound_unlessEmpty (by decide) hdescription⟩,
      hverbatim.isSound (by decide)⟩
  · have hempty : i.name.isEmpty = false := by simpa using hne
    rw [ofSvd, (hparts _).inside fun _ _ => rfl]
    simp only [bind, Except.bind, hempty, Bool.false_eq_true, if_false, pure, Except.pure]
    rfl

end Interrupt

/-! ## Address blocks -/

namespace AddressBlock

variable {b : AddressBlock}

/-- The text is read as it is, and the numbers fit. -/
@[mk_iff]
structure IsSpelled (b : AddressBlock) : Prop where
  offset : b.offset < Bits.limit 64
  size : b.size < Bits.limit 64
  width : b.width < Bits.limit 32
  usage : IsVerbatim b.usage

instance : DecidablePred IsSpelled := fun b => decidable_of_iff' _ (isSpelled_iff b)

theorem yields_toSvd (h : b.IsSpelled) (width : Nat) :
    Yields (fun _ => ofSvd width) "addressBlock" (b.toSvd width) b := by
  obtain ⟨hoffset, hsize, hwidth, husage⟩ := h
  have hparts (depth : Nat) : ReadsAll stepSvd depth { offset := 0, size := 0, width }
      ([hex "offset" b.offset, hex "size" b.size] ++
        (if b.width = width then [] else [decimal "width" b.width]) ++ [.leaf "usage" b.usage])
      b := by
    refine .append (.append (t := { offset := b.offset, size := b.size, width })
      (.cons (t := { offset := b.offset, size := 0, width }) (.hex hoffset fun cs hcs => ?_)
        (Reads.singleton (.hex hsize fun cs hcs => ?_)))
      (.ite (t := { offset := b.offset, size := b.size, width := b.width }) (fun he => ?_)
        fun _ => Reads.singleton (.decimal32 hwidth fun cs hcs => ?_)))
      (Reads.singleton (.leaf husage fun cs hcs => ?_))
    · simp [stepSvd, hcs, bind, Except.bind, pure, Except.pure]
    · simp [stepSvd, hcs, bind, Except.bind, pure, Except.pure]
    · rw [he]
      exact .nil _
    · simp [stepSvd, hcs, bind, Except.bind, pure, Except.pure]
    · simp [stepSvd, hcs]
  refine .group (by decide) ?_ fun depth => (hparts _).inside fun _ _ => rfl
  simp only [List.forall_mem_append, List.forall_mem_cons]
  refine ⟨⟨⟨isSound_hex (by decide) _, isSound_hex (by decide) _, nofun⟩, ?_⟩,
    husage.isSound (by decide), nofun⟩
  split
  · nofun
  · exact List.forall_mem_singleton.2 (isSound_decimal (by decide) _)

end AddressBlock

/-! ## Hints -/

namespace Svd

variable {n : Nat}

theorem toList_quoted (n : Nat) :
    s!"\"{n}\" ".toList = '"' :: (toString n).toList ++ ['"'] ++ [' '] := by
  simp [ToString.toString]

theorem ne_quote {c : Char} (hc : c ∈ (toString n).toList) : (c == '"') = false :=
  Text.eq_false_of_all (p := (· == '"')) (by decide) (Numeral.mem_toString hc)

/-- The number in a hint is read without the quotes and the blank around it. -/
theorem instructionNumber32_quoted (hn : n < Bits.limit 32) :
    instructionNumber32 (some s!"\"{n}\" ") = .ok n := by
  have htrimmed : Text.IsTrimmed ('"' :: (toString n).toList ++ ['"']) := by
    have hquote : Text.IsTrimmed ['"'] := by decide
    exact (hquote.append (Numeral.isTrimmed_toString n)).append hquote
  have htrim : Text.trim s!"\"{n}\" " = .ofList ('"' :: (toString n).toList ++ ['"']) := by
    rw [← Text.trim_concat_blank (c := ' ') (by decide) htrimmed, ← toList_quoted,
      String.ofList_toList]
  have hdrop (cs tail : List Char) (hne : cs ≠ []) (hcs : ∀ c ∈ cs, (c == '"') = false) :
      (cs ++ tail).dropWhile (· == '"') = cs ++ tail := by
    obtain ⟨c, cs, rfl⟩ := List.exists_cons_of_ne_nil hne
    rw [List.cons_append, List.dropWhile_cons, hcs c List.mem_cons_self,
      if_neg Bool.false_ne_true]
  have hunquoted : unquoted (.ofList ('"' :: (toString n).toList ++ ['"'])) = toString n := by
    have hne := Numeral.toString_ne_nil n
    have hstart := hdrop (toString n).toList ['"'] hne fun _ => ne_quote
    have hend := hdrop (toString n).toList.reverse [] (mt List.reverse_eq_nil_iff.1 hne) fun c hc =>
      ne_quote (List.mem_reverse.1 hc)
    rw [List.append_nil] at hend
    rw [unquoted, String.toList_ofList, List.cons_append, List.dropWhile_cons,
      if_pos (beq_self_eq_true _), hstart, List.reverse_append, List.reverse_singleton,
      List.singleton_append, List.dropWhile_cons, if_pos (beq_self_eq_true _), hend,
      List.reverse_reverse, String.ofList_toList]
  rw [instructionNumber32, htrim, hunquoted, attributeNumber32_toString hn]

theorem isPlainValue_quoted (n : Nat) : Token.isPlainValue s!"\"{n}\" ".toList = true := by
  have hdigits : "0123456789-".toList.all Xml.isAllowed = true := by decide
  have hquery : '?' ∉ (toString n).toList := Numeral.not_mem_toString (by decide)
  have hallowed : (toString n).toList.all Xml.isAllowed = true :=
    List.all_eq_true.2 fun c hc => List.all_eq_true.1 hdigits c (Numeral.mem_toString hc)
  have hmarks : Xml.isAllowed '"' = true ∧ Xml.isAllowed ' ' = true ∧ isSpace '"' = false := by
    decide
  rw [toList_quoted, Token.isPlainValue]
  generalize (toString n).toList = cs at hquery hallowed
  simp [-List.all_eq_true, hquery, hallowed, hmarks]

end Svd

namespace Peripheral

variable {p q : Peripheral} {common : Bool}

/-- The instruction for a hint, which is left out for 0. -/
def hint (target : String) (n : Nat) : List Node :=
  if n = 0 then [] else [.instruction target (some s!"\"{n}\" ")]

theorem hintsToSvd_eq (p : Peripheral) :
    p.hintsToSvd = hint "preferredAccessWidth" p.preferredAccessWidth ++
      hint "forcedBlockMultiple" p.forcedBlockMultiple := by
  unfold hintsToSvd hint
  by_cases hp : p.preferredAccessWidth = 0 <;> by_cases hb : p.forcedBlockMultiple = 0 <;>
    simp [hp, hb]

theorem isSound_hint {target : String} (htarget : isPlainWord target.toList = true)
    (hxml : target ≠ "xml") (n : Nat) : ∀ m ∈ hint target n, m.IsSound := by
  unfold hint
  split
  · nofun
  · exact List.forall_mem_singleton.2
      (Node.isSound_instruction htarget hxml (isPlainValue_quoted n))

theorem isSound_hints (p : Peripheral) : ∀ n ∈ p.hintsToSvd, n.IsSound := by
  rw [hintsToSvd_eq, List.forall_mem_append]
  exact ⟨isSound_hint (by decide) (by decide) _, isSound_hint (by decide) (by decide) _⟩

/-- The hints are read where there are none so far. -/
theorem readsAll_hints (hp : p.preferredAccessWidth < Bits.limit 32)
    (hb : p.forcedBlockMultiple < Bits.limit 32) (hqp : q.preferredAccessWidth = 0)
    (hqb : q.forcedBlockMultiple = 0) (depth : Nat) :
    ReadsAll (Draft.step common) depth { peripheral := q } p.hintsToSvd
      { peripheral := { q with
          preferredAccessWidth := p.preferredAccessWidth
          forcedBlockMultiple := p.forcedBlockMultiple } } := by
  let preferred : Peripheral := { q with preferredAccessWidth := p.preferredAccessWidth }
  rw [hintsToSvd_eq]
  refine .append (t := { peripheral := preferred }) (.ite (fun hz => ?_) fun _ => ?_)
    (.ite (fun hz => ?_) fun _ => ?_)
  · have hq : q = preferred := by simp only [preferred, hz, ← hqp]
    rw [← hq]
    exact .nil _
  · refine Reads.singleton ?_
    rw [Reads, Node.laid_instruction, Draft.step, Draft.instruct, instructionNumber32_quoted hp]
    rfl
  · have hq : preferred = { preferred with forcedBlockMultiple := p.forcedBlockMultiple } := by
      simp only [preferred, hz, ← hqb]
    rw [hq]
    exact .nil _
  · refine Reads.singleton ?_
    rw [Reads, Node.laid_instruction, Draft.step, Draft.instruct, instructionNumber32_quoted hb]
    rfl

/-! ## Peripherals -/

/-- The texts are read as they are, the numbers fit, and the parts can be read. The name is not
replaced by a common one. Only a peripheral that is not derived has hints, address blocks and
registers written. -/
@[mk_iff]
structure IsSpelled (common : Bool) (p : Peripheral) : Prop where
  named : p.name ≠ ""
  name : IsVerbatim p.name
  common : nameFor common p.name = p.name
  description : IsVerbatim p.description
  groupName : ∀ t ∈ p.groupName, IsVerbatim t
  prependToName : ∀ t ∈ p.prependToName, IsVerbatim t
  appendToName : ∀ t ∈ p.appendToName, IsVerbatim t
  headerStructName : ∀ t ∈ p.headerStructName, IsVerbatim t
  baseAddress : p.baseAddress < Bits.limit 64
  defaults : p.defaults.FitsWords
  interrupts : ∀ i ∈ p.interrupts, i.IsSpelled
  derivedFrom : ∀ s ∈ p.derivedFrom, IsReference s
  preferredAccessWidth : p.derivedFrom = none → p.preferredAccessWidth < Bits.limit 32
  forcedBlockMultiple : p.derivedFrom = none → p.forcedBlockMultiple < Bits.limit 32
  addressBlocks : p.derivedFrom = none → ∀ b ∈ p.addressBlocks, b.IsSpelled
  registers : p.derivedFrom = none → Element.areSpelled p.registers = true

instance (common : Bool) : DecidablePred (IsSpelled common) :=
  fun p => decidable_of_iff' _ (isSpelled_iff common p)

/-- The peripheral that is read again from an element of its own. -/
def settledAlone (p : Peripheral) : Peripheral :=
  { p with
    registers := Element.settledAll p.registers, interrupts := p.interrupts.map .settled }

/-- The peripheral that is read again where it is derived from a source. -/
def settledFrom (p source : Peripheral) : Peripheral :=
  { p with
    groupName := p.groupName.or source.groupName
    prependToName := p.prependToName.or source.prependToName
    appendToName := p.appendToName.or source.appendToName
    headerStructName := p.headerStructName.or source.headerStructName
    preferredAccessWidth := 0, forcedBlockMultiple := 0
    registers := [], addressBlocks := [], interrupts := p.interrupts.map .settled }

/-- The parts of an element between the name and description and the address blocks, where it
inherits from a peripheral. -/
def body (p q : Peripheral) : List Node :=
  unlessInherited "groupName" p.groupName q.groupName ++
    unlessInherited "prependToName" p.prependToName q.prependToName ++
    unlessInherited "appendToName" p.appendToName q.appendToName ++
    unlessInherited "headerStructName" p.headerStructName q.headerStructName ++
    [hex "baseAddress" p.baseAddress] ++ p.defaults.toSvd (some q.defaults)

/-- The peripheral with what the body of an element tells. -/
def overridden (p q : Peripheral) : Peripheral :=
  { q with
    groupName := p.groupName.or q.groupName
    prependToName := p.prependToName.or q.prependToName
    appendToName := p.appendToName.or q.appendToName
    headerStructName := p.headerStructName.or q.headerStructName
    baseAddress := p.baseAddress, width := p.width, access := p.access
    resetValue := p.resetValue, resetMask := p.resetMask }

theorem isSound_body (h : p.IsSpelled common) (q : Peripheral) : ∀ n ∈ p.body q, n.IsSound := by
  simp only [body, List.forall_mem_append, List.forall_mem_singleton]
  exact ⟨⟨⟨⟨⟨isSound_unlessInherited (by decide) h.groupName,
    isSound_unlessInherited (by decide) h.prependToName⟩,
    isSound_unlessInherited (by decide) h.appendToName⟩,
    isSound_unlessInherited (by decide) h.headerStructName⟩, isSound_hex (by decide) _⟩,
    isSound_defaults _ _⟩

theorem readsAll_body (h : p.IsSpelled common) (q : Peripheral) (depth : Nat) :
    ReadsAll (Draft.step common) depth { peripheral := q } (p.body q)
      { peripheral := p.overridden q } := by
  obtain ⟨hwidth, hvalue, hmask⟩ := h.defaults
  have hor {a b : Option String} (h : a = none ∨ a = b) : a.or b = b := by
    rcases h with rfl | rfl <;> simp
  let grouped : Peripheral := { q with groupName := p.groupName.or q.groupName }
  let prepended : Peripheral :=
    { grouped with prependToName := p.prependToName.or q.prependToName }
  let appended : Peripheral := { prepended with appendToName := p.appendToName.or q.appendToName }
  let named : Peripheral :=
    { appended with headerStructName := p.headerStructName.or q.headerStructName }
  let put (d : Defaults) : Draft :=
    { peripheral := { named with
        baseAddress := p.baseAddress, width := d.width, access := d.access
        resetValue := d.resetValue, resetMask := d.resetMask } }
  have hgrouped : ReadsAll (Draft.step common) depth { peripheral := q }
      (unlessInherited "groupName" p.groupName q.groupName) { peripheral := grouped } := by
    refine .unlessInherited (fun t ht => .leaf (h.groupName t ht) fun cs hcs => ?_) fun hs => ?_
    · simp [Draft.step, hcs, grouped, ht]
    · simp only [grouped, hor hs]
  have hprepended : ReadsAll (Draft.step common) depth { peripheral := grouped }
      (unlessInherited "prependToName" p.prependToName q.prependToName)
      { peripheral := prepended } := by
    refine .unlessInherited (fun t ht => .leaf (h.prependToName t ht) fun cs hcs => ?_) fun hs => ?_
    · simp [Draft.step, hcs, prepended, ht]
    · simp only [prepended, grouped, hor hs]
  have happended : ReadsAll (Draft.step common) depth { peripheral := prepended }
      (unlessInherited "appendToName" p.appendToName q.appendToName)
      { peripheral := appended } := by
    refine .unlessInherited (fun t ht => .leaf (h.appendToName t ht) fun cs hcs => ?_) fun hs => ?_
    · simp [Draft.step, hcs, appended, ht]
    · simp only [appended, prepended, grouped, hor hs]
  have hnamed : ReadsAll (Draft.step common) depth { peripheral := appended }
      (unlessInherited "headerStructName" p.headerStructName q.headerStructName)
      { peripheral := named } := by
    refine .unlessInherited (fun t ht => .leaf (h.headerStructName t ht) fun cs hcs => ?_)
      fun hs => ?_
    · simp [Draft.step, hcs, named, ht]
    · simp only [named, appended, prepended, grouped, hor hs]
  have hplaced : Reads (Draft.step common) depth { peripheral := named }
      (hex "baseAddress" p.baseAddress) (put q.defaults) :=
    .hex h.baseAddress fun cs hcs => by
      simp [Draft.step, hcs, bind, Except.bind, pure, Except.pure, put, named, appended, prepended,
        grouped, defaults]
  have hdefaults : ReadsAll (Draft.step common) depth (put q.defaults)
      (p.defaults.toSvd (some q.defaults)) (put p.defaults) := by
    refine .defaults put (fun e => .decimal32 hwidth fun cs hcs => ?_)
      (fun e => .access fun cs hcs => ?_) (fun e => .hex hvalue fun cs hcs => ?_)
      (fun e => .hex hmask fun cs hcs => ?_) fun f hf => (Option.some.inj hf).symm
    iterate 4
      simp [Draft.step, hcs, bind, Except.bind, pure, Except.pure, put]
  exact ((((hgrouped.append hprepended).append happended).append hnamed).append
    hplaced.singleton).append hdefaults

/-- The interrupts of an element are read one after another. -/
theorem readsAll_interrupts (h : ∀ i ∈ p.interrupts, i.IsSpelled) (hq : q.interrupts = [])
    (depth : Nat) : ReadsAll (Draft.step common) depth { peripheral := q }
      (p.interrupts.map Interrupt.toSvd)
      { peripheral := { q with interrupts := p.interrupts.map .settled } } := by
  let st (done : List Interrupt) : Draft :=
    { peripheral := { q with interrupts := done.map .settled } }
  have hstart : { peripheral := q } = st [] := by
    cases q
    cases hq
    rfl
  rw [hstart]
  refine ReadsAll.map st fun done i rest hsplit => ?_
  refine (Interrupt.yields_toSvd (h i (by simp [hsplit])) none).reads fun as cs hcs => ?_
  simp [Draft.step, hcs, bind, Except.bind, pure, Except.pure, st]

theorem isSound_interrupts (h : p.IsSpelled common) :
    ∀ n ∈ p.interrupts.map Interrupt.toSvd, n.IsSound := by
  intro n hn
  obtain ⟨i, hi, rfl⟩ := List.mem_map.1 hn
  exact (Interrupt.yields_toSvd (h.interrupts i hi) none).1

/-- The address blocks of a peripheral of its own are read one after another. -/
theorem readsAll_addressBlocks (h : ∀ b ∈ p.addressBlocks, b.IsSpelled) (hq : q.addressBlocks = [])
    (hown : q.derivedFrom = none) (hwidth : q.width = p.width) (depth : Nat) :
    ReadsAll (Draft.step common) depth { peripheral := q }
      (p.addressBlocks.map (AddressBlock.toSvd p.width))
      { peripheral := { q with addressBlocks := p.addressBlocks } } := by
  let st (done : List AddressBlock) : Draft := { peripheral := { q with addressBlocks := done } }
  have hstart : { peripheral := q } = st [] := by
    cases q
    cases hq
    rfl
  rw [hstart]
  refine ReadsAll.map st fun done b rest hsplit => ?_
  refine (AddressBlock.yields_toSvd (h b (by simp [hsplit])) p.width).reads fun as cs hcs => ?_
  simp [Draft.step, isDerived, hcs, hown, hwidth, bind, Except.bind, pure, Except.pure, st]

theorem readsAll_name (h : p.IsSpelled common) (q : Peripheral) (depth : Nat) :
    Reads (Draft.step common) depth { peripheral := q } (.leaf "name" p.name)
      { peripheral := { q with name := p.name } } :=
  .leaf h.name fun cs hcs => by simp [Draft.step, hcs, h.common]

theorem hinted_eq (p : Peripheral) (source : Option String) :
    hinted p (source.map fun s => ⟨⟨"", "derivedFrom"⟩, s⟩).toList = .ok p := by
  cases source <;> simp [hinted, Node.attribute?, bind, Except.bind, pure, Except.pure]

/-- The peripheral that is left when the parts of its element have been read. -/
theorem ofSvd_eq {device : Device} (source : Option String) {cs : List Node} {d : Draft}
    (es : List Element)
    (hstart : start common device
      (source.map fun s => ⟨⟨"", "derivedFrom"⟩, s⟩).toList = .ok q)
    (hparts : cs.foldlM (Draft.step common) { peripheral := q } = .ok d)
    (hne : d.peripheral.name ≠ "") (hes : ∀ nodes ∈ d.registers,
      Element.listOfSvd "registers" [] d.peripheral.defaults [] nodes = .ok es) :
    ofSvd common device (source.map fun s => ⟨⟨"", "derivedFrom"⟩, s⟩).toList cs =
      .ok (if d.registers.isSome then { d.peripheral with registers := es } else d.peripheral) := by
  have hempty : d.peripheral.name.isEmpty = false := by simpa using hne
  rw [ofSvd, hstart]
  simp only [bind, Except.bind, hinted_eq, hparts, hempty, Bool.false_eq_true, if_false]
  cases hd : d.registers with
  | none => rfl
  | some nodes => simp [hes nodes hd, pure, Except.pure]

/-- A derived peripheral is read behind its source. -/
theorem yields_derivedToSvd {device : Device} {source : Peripheral} (h : p.IsSpelled common)
    (hp : p.derivedFrom = some source.name) (hown : source.derivedFrom = none)
    (hfind : device.find? source.name = some source.settledAlone)
    (hcommon : nameFor common source.name = source.name) :
    Yields (ofSvd common device) "peripheral" (p.derivedToSvd source) (p.settledFrom source) := by
  let q : Peripheral := source.settledAlone.derive
  let named : Peripheral := { q with name := p.name }
  let described : Peripheral := { named with description := p.description }
  have hstart : start common device (p.derivedFrom.map fun s => ⟨⟨"", "derivedFrom"⟩, s⟩).toList =
      .ok q := by
    have hresolve : device.resolve source.settledAlone = .ok source.settledAlone :=
      device.resolve_of_not_isDerived (by simp [isDerived, settledAlone, hown])
    rw [start, attribute?_derivedFrom, hp]
    simp only [hcommon, hfind, Option.some_or, hresolve, bind, Except.bind, pure, Except.pure, q]
  have hdescribed (depth : Nat) : ReadsAll (Draft.step common) depth { peripheral := named }
      (unlessInherited "description" (some p.description) (some source.description))
      { peripheral := described } := by
    refine .unlessInherited (fun t ht => ?_) fun hs => ?_
    · rw [← Option.some.inj ht]
      exact .leaf h.description fun cs hcs => by simp [Draft.step, hcs, described]
    · have hs : p.description = source.description := by simpa using hs
      simp [described, named, q, derive, settledAlone, hs]
  have hall (depth : Nat) : ReadsAll (Draft.step common) depth { peripheral := q }
      ([.leaf "name" p.name] ++
        unlessInherited "description" (some p.description) (some source.description) ++
        p.body described ++ p.interrupts.map Interrupt.toSvd)
      { peripheral := p.settledFrom source } := by
    have hend : p.settledFrom source =
        { p.overridden described with interrupts := p.interrupts.map .settled } := by
      simp [settledFrom, overridden, described, named, q, derive, settledAlone, hp]
    rw [hend]
    exact (((readsAll_name h q depth).singleton.append (hdescribed depth)).append
      (readsAll_body h described depth)).append
        (readsAll_interrupts h.interrupts rfl depth)
  have hnodes : p.derivedToSvd source = derivable "peripheral" (some source.name)
      ([.leaf "name" p.name] ++
        unlessInherited "description" (some p.description) (some source.description) ++
        p.body described ++ p.interrupts.map Interrupt.toSvd) := by
    simp [derivedToSvd, body, described, named, q, derive, settledAlone, defaults]
  have hsound : ∀ n ∈ [.leaf "name" p.name] ++
      unlessInherited "description" (some p.description) (some source.description) ++
      p.body described ++ p.interrupts.map Interrupt.toSvd, n.IsSound := by
    simp only [List.forall_mem_append, List.forall_mem_singleton]
    exact ⟨⟨⟨h.name.isSound (by decide), isSound_unlessInherited (by decide)
      (by simpa using h.description)⟩, isSound_body h described⟩, isSound_interrupts h⟩
  rw [hnodes, ← hp]
  refine .derivable (by decide) h.derivedFrom hsound fun depth => ?_
  refine ofSvd_eq _ [] hstart ((hall _).inside fun _ _ => rfl) h.named fun nodes hnodes => ?_
  cases hnodes

/-- The parts of the element of a peripheral of its own in front of its registers. -/
def parts (inForce : Defaults) (p : Peripheral) : List Node :=
  p.hintsToSvd ++ [.leaf "name" p.name] ++ unlessEmpty "description" p.description ++
    unlessInherited "groupName" p.groupName none ++
    unlessInherited "prependToName" p.prependToName none ++
    unlessInherited "appendToName" p.appendToName none ++
    unlessInherited "headerStructName" p.headerStructName none ++
    [hex "baseAddress" p.baseAddress] ++ p.defaults.toSvd (some inForce) ++
    p.addressBlocks.map (AddressBlock.toSvd p.width) ++ p.interrupts.map Interrupt.toSvd

theorem toSvd_eq (inForce : Defaults) (p : Peripheral) :
    p.toSvd inForce = .group "peripheral" (p.parts inForce ++
      if p.registers.isEmpty then []
      else [.group "registers" (Element.listToSvd p.defaults p.registers)]) := rfl

/-- A peripheral that has nothing but the defaults. -/
def blank (inForce : Defaults) : Peripheral :=
  { name := "", baseAddress := 0, width := inForce.width, access := inForce.access
    resetValue := inForce.resetValue, resetMask := inForce.resetMask }

/-- The peripheral with the parts of its element in front of its registers. -/
theorem readsAll_parts (h : p.IsSpelled common) (hp : p.derivedFrom = none) (inForce : Defaults)
    (depth : Nat) :
    (∀ n ∈ p.parts inForce, n.IsSound) ∧
      ReadsAll (Draft.step common) depth { peripheral := blank inForce } (p.parts inForce)
        { peripheral := { p with registers := [], interrupts := p.interrupts.map .settled } } := by
  let hinted : Peripheral := { blank inForce with
    preferredAccessWidth := p.preferredAccessWidth, forcedBlockMultiple := p.forcedBlockMultiple }
  let described : Peripheral := { hinted with name := p.name, description := p.description }
  let blocked : Peripheral := { p.overridden described with addressBlocks := p.addressBlocks }
  have hnodes : p.parts inForce = p.hintsToSvd ++ [.leaf "name" p.name] ++
      unlessEmpty "description" p.description ++ p.body described ++
      p.addressBlocks.map (AddressBlock.toSvd p.width) ++ p.interrupts.map Interrupt.toSvd := by
    simp [parts, body, described, hinted, blank, defaults]
  have hhints : ReadsAll (Draft.step common) depth { peripheral := blank inForce } p.hintsToSvd
      { peripheral := hinted } :=
    readsAll_hints (h.preferredAccessWidth hp) (h.forcedBlockMultiple hp) rfl rfl depth
  have hdescribed : ReadsAll (Draft.step common) depth
      { peripheral := { hinted with name := p.name } } (unlessEmpty "description" p.description)
      { peripheral := described } :=
    .unlessEmpty (.leaf h.description fun cs hcs => by simp [Draft.step, hcs, described])
      fun he => by simp [described, hinted, blank, he]
  have hblocks : ReadsAll (Draft.step common) depth { peripheral := p.overridden described }
      (p.addressBlocks.map (AddressBlock.toSvd p.width)) { peripheral := blocked } :=
    readsAll_addressBlocks (q := p.overridden described) (h.addressBlocks hp) rfl rfl rfl depth
  have hend : { p with registers := [], interrupts := p.interrupts.map .settled } =
      { blocked with interrupts := p.interrupts.map .settled } := by
    simp [blocked, overridden, described, hinted, blank, hp]
  rw [hnodes, hend]
  constructor
  · simp only [List.forall_mem_append, List.forall_mem_singleton]
    refine ⟨⟨⟨⟨⟨isSound_hints p, h.name.isSound (by decide)⟩,
      isSound_unlessEmpty (by decide) h.description⟩, isSound_body h described⟩, fun n hn => ?_⟩,
      isSound_interrupts h⟩
    obtain ⟨b, hb, rfl⟩ := List.mem_map.1 hn
    exact (AddressBlock.yields_toSvd (h.addressBlocks hp b hb) p.width).1
  · exact ((((hhints.append (readsAll_name h hinted depth).singleton).append hdescribed).append
      (readsAll_body h described depth)).append hblocks).append
        (readsAll_interrupts h.interrupts rfl depth)

/-- A peripheral of its own is read where the defaults of the device are in force. -/
theorem yields_toSvd (device : Device) (h : p.IsSpelled common) (hp : p.derivedFrom = none)
    (hsources : Element.findSources [] [] p.registers = true) :
    Yields (ofSvd common device) "peripheral" (p.toSvd device.defaults) p.settledAlone := by
  have hstart : start common device [] = .ok (blank device.defaults) := rfl
  have hsound := (readsAll_parts h hp device.defaults 0).1
  have hparts (depth : Nat) := (readsAll_parts h hp device.defaults depth).2
  have hlist := Element.listOfSvd_inside p.defaults (h.registers hp) hsources
  have hmembers := Element.isSound_listToSvd p.defaults (h.registers hp) hsources
  rw [toSvd_eq]
  split
  · rename_i hnone
    have hsettled : p.settledAlone =
        { p with registers := [], interrupts := p.interrupts.map .settled } := by
      rw [settledAlone, List.isEmpty_iff.1 hnone]
      rfl
    rw [List.append_nil, hsettled]
    refine .own (by decide) hsound fun depth => ?_
    exact ofSvd_eq none [] hstart ((hparts _).inside fun _ _ => rfl) h.named
      nofun
  · let own : Peripheral := { p with registers := [], interrupts := p.interrupts.map .settled }
    have hgroup (depth : Nat) : Reads (Draft.step common) depth { peripheral := own }
        (.group "registers" (Element.listToSvd p.defaults p.registers))
        { peripheral := own, registers :=
            some (Node.inside depth (Element.listToSvd p.defaults p.registers)) } := by
      rw [Reads, Node.group, Node.laid_of_isSound hmembers]
      simp [Draft.step, isDerived, own, hp]
    refine .own (by decide) (List.forall_mem_append.2
      ⟨hsound, List.forall_mem_singleton.2 (Node.isSound_group (by decide) hmembers)⟩)
      fun depth => ?_
    have hall := ((hparts (depth + 1)).append (hgroup (depth + 1)).singleton).inside
      fun _ _ => rfl
    refine ofSvd_eq none _ hstart hall h.named fun nodes hnodes => ?_
    rw [← Option.some.inj hnodes]
    exact hlist "registers" _

end Peripheral

end RegisterMap
