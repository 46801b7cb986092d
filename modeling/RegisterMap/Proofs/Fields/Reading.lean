import RegisterMap.Proofs.Svd.Content
import RegisterMap.Proofs.Svd.Copies

/-!
# Fields of registers that were read

The lists of registers in a document become the registers of the peripherals, one by one
(`Device.areRead_of_ofSvd`). A register that is derived from another has the fields of the one that
the reader started from, unless another one of its name stands in front of it somewhere in the
peripheral (`Device.fieldsOf_of_readSvd`). In `Device.fieldsOf_radio` it is in another cluster.
-/

namespace RegisterMap

open Svd Xml

/-- The nodes in an element. -/
def Xml.Node.parts : Node → List Node
  | .element _ _ children => children
  | _ => []

/-! ## Elements of peripherals -/

namespace Peripheral

/-- The nodes of the list of registers in the element of a peripheral, of the last if there are
more. -/
def registerNodes (children : List Node) : List Node :=
  (childrenOf "registers" children).getLast?.getD []

/-- The registers are those of the list in the element of the peripheral. -/
def IsReadFrom (children : List Node) (p : Peripheral) : Prop :=
  Element.listOfSvd "registers" [] p.defaults [] (registerNodes children) = .ok p.registers

theorem Draft.ensures_step_registers (common : Bool) (d : Draft) (n : Node) :
    Ensures (d.step common n) fun d' =>
      d'.registers = (childrenOf "registers" [n]).getLast?.or d.registers := by
  cases n with
  | element name attributes children =>
    have hother (h : name.base ≠ "registers") :
        childrenOf "registers" [.element name attributes children] = [] := by
      rw [childrenOf_element, if_neg h]
    rw [step]
    dsimp only
    split
    case h_1 | h_2 | h_3 | h_4 | h_5 | h_6 | h_7 =>
      rename_i htag
      rw [hother (by simp [htag])]
      exact .ok rfl
    case h_8 | h_9 | h_10 | h_11 | h_12 | h_13 =>
      rename_i htag
      rw [hother (by simp [htag])]
      exact .seq fun _ => .ok rfl
    case h_14 =>
      rename_i htag
      rw [hother (by simp [htag])]
      split
      · exact .ok rfl
      · exact .seq fun _ => .ok rfl
    case h_15 =>
      rename_i htag
      rw [childrenOf_element, if_pos htag]
      split
      · exact .fail
      · exact .ok rfl
    case h_16 =>
      rename_i htag
      rw [hother htag]
      exact ensures_pass (P := fun d' : Draft => d'.registers = d.registers) rfl _ _
  | text s => exact .ok rfl
  | instruction target value =>
    show Ensures (d.instruct target value) _
    unfold instruct
    split
    · exact .seq fun _ => .ok rfl
    · exact .seq fun _ => .ok rfl
    · exact .ok rfl
  | comment => exact .ok rfl

theorem Draft.ensures_registerNodes (common : Bool) (d : Draft) (ns : List Node) :
    Ensures (ns.foldlM (Draft.step common) d) fun d' =>
      d'.registers = (childrenOf "registers" ns).getLast?.or d.registers := by
  induction ns generalizing d with
  | nil => exact .ok rfl
  | cons n ns ih =>
    rw [List.foldlM_cons]
    refine (d.ensures_step_registers common n).bind fun d' hd' => (ih d').mono fun e he => ?_
    rw [he, hd', childrenOf_cons _ n ns, List.getLast?_append, Option.or_assoc]

theorem ensures_isReadFrom (common : Bool) (device : Device) (attributes : List Attribute)
    (children : List Node) :
    Ensures (ofSvd common device attributes children) (IsReadFrom children) := by
  unfold ofSvd
  refine (ensures_start common device attributes).bind fun p hp => ?_
  refine (ensures_hinted hp attributes).bind fun q hq => ?_
  have hopen : Ensures (children.foldlM (Draft.step common) { peripheral := q }) Draft.IsOpen :=
    .foldlM children ⟨hq.registers, fun _ => ⟨hq.addressBlocks, rfl⟩⟩
      fun d n hd => Draft.ensures_step common hd n
  refine (hopen.and (Draft.ensures_registerNodes common { peripheral := q } children)).bind ?_
  rintro d ⟨hd, hnodes⟩
  rw [Option.or_none] at hnodes
  dsimp only
  split
  · exact .fail_bind
  · split
    · rename_i hnone
      refine .ok ?_
      rw [IsReadFrom, registerNodes, ← hnodes, hnone, hd.registers]
      rfl
    · rename_i nodes hsome
      intro r hr
      obtain ⟨es, hes, hr⟩ := bind_eq_ok.1 hr
      cases hr
      rw [IsReadFrom, registerNodes, ← hnodes, hsome]
      exact within_eq_ok.1 hes

/-! ## Finding the root -/

open Element

variable {p : Peripheral} {c : Register}

/-- The register is found to have the fields of its copy, which are those of its root, or a register
that hides the root is found. -/
def FindsRoot (p : Peripheral) (c : Register) : Prop :=
  ∃ t ∈ registersAll p.registers, t.derivedFrom = none ∧ t.name = c.rootName ∧
    t.fields = c.fields ∧ (p.fieldsOf c.stripped = .ok c.fields ∨
      ∃ s, Hides p.registers s t ∧ p.fieldsOf c.stripped = .ok s.fields)

theorem FindsRoot.fieldsOf (h : p.FindsRoot c) (hnames : HasDistinctNames p.registers) :
    p.fieldsOf c.stripped = .ok c.fields := by
  obtain ⟨t, -, -, -, -, hfields | ⟨s, hhides, -⟩⟩ := h
  · exact hfields
  · exact absurd hhides (hnames.not_hides s t)

theorem findsRoot_of_isRooted {copies : List Element} (hp : p.registers = strippedAll copies)
    (h : IsRooted (registersAll copies) c) : p.FindsRoot c := by
  obtain ⟨t, ht, hunderived, hname, hfields⟩ := h
  have hall : registersAll p.registers = (registersAll copies).map Register.stripped := by
    rw [hp, strippedAll, registersAll_mapRegistersAll]
  have hmem : t ∈ registersAll p.registers := by
    rw [hall]
    exact List.mem_map.2 ⟨t, ht, Register.stripped_of_none hunderived⟩
  refine ⟨t, hmem, hunderived, hname, hfields, ?_⟩
  cases hsource : c.derivedFrom with
  | none =>
    rw [Register.stripped_of_none hsource]
    exact .inl (p.fieldsOf_of_none hsource)
  | some source =>
    have hroot : t.name = source := by rw [hname, Register.rootName, hsource]; rfl
    obtain ⟨s, hs, hfront⟩ := exists_findIn?_of_mem hmem
    have hfound : p.fieldsOf c.stripped = .ok s.fields := by
      refine fieldsOf_eq_ok_iff.2 ⟨s, ?_, rfl⟩
      rw [described?, Register.derivedFrom_stripped, hsource, ← hroot]
      exact hs
    rcases hfront with rfl | hhides
    · exact .inl (hfields ▸ hfound)
    · exact .inr ⟨s, hhides, hfound⟩

/-- What is read from a list of registers are copies without their fields, and they find their
roots. -/
theorem IsReadFrom.exists_copies {children : List Node} (h : p.IsReadFrom children) :
    ∃ copies, copyListOfSvd "registers" [] p.defaults [] (registerNodes children) = .ok copies ∧
      p.registers = strippedAll copies ∧ ∀ c ∈ registersAll copies, p.FindsRoot c := by
  obtain ⟨copies, hcopies, hstripped⟩ :=
    (agree_copyListOfSvd "registers" [] p.defaults [] (registerNodes children)).exists_of_eq_ok h
  have hnone : AllRooted (registersOf [[]]) := by simp [AllRooted, registersOf, registersAll]
  have hrooted : AllRooted (registersOf [copies]) :=
    ensures_copyListOfSvd "registers" [] p.defaults [] hnone (registerNodes children) copies hcopies
  rw [registersOf, List.flatMap_singleton] at hrooted
  exact ⟨copies, hcopies, hstripped, fun c hc => findsRoot_of_isRooted hstripped (hrooted c hc)⟩

end Peripheral

/-! ## Peripherals of a document -/

namespace Device

open Element Peripheral

/-- The elements of peripherals among the parts of the root, by their children. -/
def peripheralNodes (parts : List Node) : List (List Node) :=
  (childrenOf "peripherals" parts).flatMap (childrenOf "peripheral")

/-- The second device has more peripherals behind those of the first, read from the elements. -/
def Adds (elements : List (List Node)) (d e : Device) : Prop :=
  ∃ ps, e.peripherals = d.peripherals ++ ps ∧ List.Forall₂ IsReadFrom elements ps

variable {d e : Device}

theorem Adds.none (h : e.peripherals = d.peripherals) : Adds [] d e :=
  ⟨[], by rw [h, List.append_nil], .nil⟩

theorem Adds.append {f : Device} {as bs : List (List Node)} (h : Adds as d e) (h' : Adds bs e f) :
    Adds (as ++ bs) d f := by
  obtain ⟨ps, he, hps⟩ := h
  obtain ⟨qs, hf, hqs⟩ := h'
  exact ⟨ps ++ qs, by rw [hf, he, List.append_assoc], List.rel_append hps hqs⟩

theorem ensures_addPeripheral_adds (d : Device) {children : List Node} {p : Peripheral}
    (hp : p.IsReadFrom children) : Ensures (d.addPeripheral p) (Adds [children] d) := by
  have hadds : Adds [children] d { d with peripherals := d.peripherals ++ [p] } :=
    ⟨[p], rfl, .cons hp .nil⟩
  unfold addPeripheral
  dsimp only
  split
  · exact .fail_bind
  · split
    · refine .seq fun _ => ?_
      split
      · exact .fail_bind
      · exact .ok hadds
    · exact .ok hadds

theorem ensures_stepPeripheral_adds (common : Bool) (d : Device) (n : Node) :
    Ensures (d.stepPeripheral common n) (Adds (childrenOf "peripheral" [n]) d) := by
  cases n with
  | element name attributes children =>
    rw [stepPeripheral, childrenOf_element]
    split
    · rename_i htag
      rw [if_pos (beq_iff_eq.1 htag)]
      exact (ensures_isReadFrom common d attributes children).bind
        fun p hp => ensures_addPeripheral_adds d hp
    · rename_i htag
      rw [if_neg (mt beq_iff_eq.2 htag)]
      exact ensures_pass (.none rfl) _ _
  | text s => exact .ok (.none rfl)
  | instruction target value => exact .ok (.none rfl)
  | comment => exact .ok (.none rfl)

theorem ensures_foldlM_adds (common : Bool) (d : Device) (ns : List Node) :
    Ensures (ns.foldlM (stepPeripheral common) d) (Adds (childrenOf "peripheral" ns) d) := by
  induction ns generalizing d with
  | nil => exact .ok (.none rfl)
  | cons n ns ih =>
    rw [List.foldlM_cons, childrenOf_cons]
    exact (ensures_stepPeripheral_adds common d n).bind fun e he =>
      (ih e).mono fun _ hf => he.append hf

theorem ensures_stepPart_adds (common : Bool) (d : Device) (tag : String) (children : List Node) :
    Ensures (d.stepPart common tag children)
      (Adds (if tag = "peripherals" then childrenOf "peripheral" children else []) d) := by
  unfold stepPart
  split
  case h_1 | h_2 | h_3 => exact .ok (.none rfl)
  case h_4 | h_5 | h_6 | h_7 | h_8 | h_9 | h_10 => exact .seq fun _ => .ok (.none rfl)
  case h_11 => exact ensures_foldlM_adds common d children
  case h_12 =>
    rename_i htag
    rw [if_neg htag]
    exact ensures_pass (.none rfl) _ _

/-! ### Extensions -/

theorem ensures_extend_peripherals (d : Device) (i : Interrupt) :
    Ensures (d.extend i).toExcept fun e => e.peripherals = d.peripherals := by
  unfold extend
  split
  · exact .ok rfl
  · rw [Outcome.toExcept_ofExcept]
    exact .seq fun _ => .ok rfl

theorem ensures_addNumbered_peripherals (last : Int) (d : Device) (elements : List (List Node)) :
    Ensures (d.addNumbered last elements).toExcept fun e => e.peripherals = d.peripherals := by
  induction elements generalizing last d with
  | nil => exact .ok rfl
  | cons children rest ih =>
    rw [addNumbered]
    split
    · exact .of_failure rfl
    · rename_i i _
      rw [Outcome.toExcept_andThen]
      exact (ensures_extend_peripherals d i).bind fun e he =>
        (ih i.index e).mono fun _ h => h.trans he

theorem ensures_stepExtension_peripherals (d : Device) (n : Node) :
    Ensures (d.stepExtension n).toExcept fun e => e.peripherals = d.peripherals := by
  cases n with
  | element name attributes children =>
    rw [stepExtension]
    split
    · exact .ok rfl
    · exact ensures_addNumbered_peripherals _ _ _
    · exact .ok rfl
  | text s => exact .ok rfl
  | instruction target value => exact .ok rfl
  | comment => exact .ok rfl

/-! ### Documents -/

theorem ensures_stepSvd_adds (common : Bool) (d : Device) (n : Node) :
    Ensures (d.stepSvd common n).toExcept (Adds (peripheralNodes [n]) d) := by
  cases n with
  | element name attributes children =>
    rw [stepSvd]
    split
    · rename_i htag
      have hnone : peripheralNodes [.element name attributes children] = [] := by
        rw [peripheralNodes, childrenOf_element, beq_iff_eq.1 htag]
        rfl
      rw [hnone]
      have hkeep := Ensures.foldl_andThen (I := fun e : Device => e.peripherals = d.peripherals)
        children rfl fun e n he =>
          (ensures_stepExtension_peripherals e n).mono fun _ h => h.trans he
      exact hkeep.mono fun _ h => .none h
    · rw [Outcome.toExcept_ofExcept]
      refine (ensures_stepPart_adds common d name.base children).mono fun e he => ?_
      have hnodes : peripheralNodes [.element name attributes children] =
          if name.base = "peripherals" then childrenOf "peripheral" children else [] := by
        rw [peripheralNodes, childrenOf_element]
        by_cases htag : name.base = "peripherals" <;> simp [htag]
      rwa [hnodes]
  | text s => exact .ok (.none rfl)
  | instruction target value => exact .ok (.none rfl)
  | comment => exact .ok (.none rfl)

theorem ensures_stepAll_adds (common : Bool) (d : Device) (parts : List Node) :
    Ensures (d.stepAll (stepSvd common) parts).toExcept (Adds (peripheralNodes parts) d) := by
  induction parts generalizing d with
  | nil => exact .ok (.none rfl)
  | cons n ns ih =>
    have hnodes : peripheralNodes (n :: ns) = peripheralNodes [n] ++ peripheralNodes ns := by
      rw [peripheralNodes, childrenOf_cons, List.flatMap_append]
      rfl
    rw [stepAll, List.foldl_cons, Outcome.pure_andThen, Outcome.toExcept_foldl_andThen, hnodes]
    exact (ensures_stepSvd_adds common d n).bind fun e he => (ih e).mono fun _ hf => he.append hf

/-- The peripherals of a device that is read are those of the document, in order. -/
theorem areRead_of_ofSvd {common : Bool} {root : Node} (h : (ofSvd common root).toExcept = .ok d) :
    List.Forall₂ IsReadFrom (peripheralNodes root.parts) d.peripherals := by
  cases root with
  | element name attributes parts =>
    simp only [ofSvd] at h
    split at h
    · rw [Outcome.toExcept_andThen] at h
      obtain ⟨e, he, hd⟩ := bind_eq_ok.1 h
      obtain ⟨-, rfl⟩ := Outcome.check_ok hd
      obtain ⟨ps, hps, hread⟩ := ensures_stepAll_adds common _ parts d he
      rw [hps]
      exact hread
    · cases h
  | text s => cases h
  | instruction target value => cases h
  | comment => cases h

/-- **Fields of registers that were read.** The registers of each peripheral in the document are
read as copies of those that the reader starts from, without the fields that they took over. The
fields that are found for them are those of the copies, of the root of each derivation, unless the
root is hidden by another register of its name; where the names in a peripheral are different, none
is. -/
theorem fieldsOf_of_readSvd {common : Bool} {text : String}
    (h : (readSvd common text).toExcept = .ok d) :
    ∃ root, Node.ofText? text = some root ∧
      List.Forall₂ (fun children p => ∃ copies,
          copyListOfSvd "registers" [] p.defaults [] (registerNodes children) = .ok copies ∧
          p.registers = strippedAll copies ∧ (∀ c ∈ registersAll copies, p.FindsRoot c) ∧
          (Element.HasDistinctNames p.registers →
            ∀ c ∈ registersAll copies, p.fieldsOf c.stripped = .ok c.fields))
        (peripheralNodes root.parts) d.peripherals := by
  unfold readSvd at h
  split at h
  · rename_i root hroot
    refine ⟨root, hroot, (areRead_of_ofSvd h).imp fun children p hp => ?_⟩
    obtain ⟨copies, hcopies, hstripped, hroots⟩ := hp.exists_copies
    exact ⟨copies, hcopies, hstripped, hroots, fun hnames c hc => (hroots c hc).fieldsOf hnames⟩
  · cases h

section Example

private def field (name : String) : Field := { name, bitOffset := 0, bitWidth := 1 }

private def control (name fieldName : String) (offset : Nat) : Register :=
  { name, offset, width := 32, access := .readWrite, resetValue := 0, resetMask := 0xffffffff
    fields := [field fieldName] }

private def controlNode (name fieldName : String) (offset : Nat) : Node :=
  .group "register" [.leaf "name" name, hex "addressOffset" offset, .group "fields" [
    .group "field" [.leaf "name" fieldName, decimal "bitOffset" 0, decimal "bitWidth" 1]]]

/-- The element of a register that is derived from another. -/
private def mirrorNode (name source : String) (offset : Nat) : Node :=
  derivable "register" (some source) [.leaf "name" name, hex "addressOffset" offset]

/-- The register that is read from it, with the fields of its source. -/
private def mirrorOf (source : Register) (name : String) (offset : Nat) : Register :=
  { source with name, offset, derivedFrom := some source.name }

private def clusterNode (name : String) (offset : Nat) (members : List Node) : Node :=
  .group "cluster" ([.leaf "name" name, hex "addressOffset" offset] ++ members)

private def deviceNode (registers : List Node) : Node :=
  .group "device" [.leaf "name" "D", .group "peripherals" [.group "peripheral" [
    .leaf "name" "RADIO", hex "baseAddress" 0x40000000, .group "registers" registers]]]

private def radio (registers : List Element) : Peripheral :=
  { name := "RADIO", baseAddress := 0x40000000, registers }

/-- In a cluster, a mirror of a register in front of it and one of a register in the cluster. -/
private def beaconNode : Node :=
  deviceNode [controlNode "CTRL" "EN" 0,
    clusterNode "RX" 0x10 [mirrorNode "RXCTRL" "CTRL" 0, controlNode "RXFILTER" "RXEN" 4,
      mirrorNode "RXMIRROR" "RXFILTER" 8]]

private def beaconCopies : List Element :=
  [.register (control "CTRL" "EN" 0),
   .cluster { name := "RX", offset := 0x10 } [
     .register (mirrorOf (control "CTRL" "EN" 0) "RXCTRL" 0),
     .register (control "RXFILTER" "RXEN" 4),
     .register (mirrorOf (control "RXFILTER" "RXEN" 4) "RXMIRROR" 8)]]

theorem fieldsOf_of_readSvd_beacon :
    (readSvd false (Node.document beaconNode)).toExcept =
      .ok { name := "D", peripherals := [radio (strippedAll beaconCopies)] } ∧
    ∀ c ∈ registersAll beaconCopies,
      (radio (strippedAll beaconCopies)).fieldsOf c.stripped = .ok c.fields := by
  have htree : Node.ofText? (Node.document beaconNode) = some (beaconNode.laid 0) :=
    Node.ofText?_document (by decide +kernel) (by decide +kernel)
  have hread : (readSvd false (Node.document beaconNode)).toExcept =
      .ok { name := "D", peripherals := [radio (strippedAll beaconCopies)] } := by
    rw [readSvd, htree]
    decide +kernel
  have hcopies : ∀ children ∈ peripheralNodes (beaconNode.laid 0).parts,
      copyListOfSvd "registers" [] (radio []).defaults [] (registerNodes children) =
        .ok beaconCopies := by decide +kernel
  obtain ⟨root, hroot, hall⟩ := fieldsOf_of_readSvd hread
  cases htree.symm.trans hroot
  obtain ⟨children, rest, ⟨copies, hread', -, -, hfields⟩, -, hnodes⟩ :=
    List.forall₂_cons_right_iff.1 hall
  cases (hcopies children (hnodes ▸ List.mem_cons_self)).symm.trans hread'
  exact ⟨hread, hfields (by decide +kernel)⟩

/-- The transmitter has a control register, and so has the receiver, which has a mirror of its
own. -/
private def radioNode : Node :=
  deviceNode [clusterNode "TX" 0 [controlNode "CTRL" "TXEN" 0],
    clusterNode "RX" 0x10 [controlNode "CTRL" "RXEN" 0, mirrorNode "MIRROR" "CTRL" 4]]

private def radioCopies : List Element :=
  [.cluster { name := "TX" } [.register (control "CTRL" "TXEN" 0)],
   .cluster { name := "RX", offset := 0x10 } [.register (control "CTRL" "RXEN" 0),
     .register (mirrorOf (control "CTRL" "RXEN" 0) "MIRROR" 4)]]

private def mirror : Register := mirrorOf (control "CTRL" "RXEN" 0) "MIRROR" 4

/-- The mirror in the receiver is one of the receiver's control register, but has the fields of that
of the transmitter. -/
theorem fieldsOf_radio :
    (readSvd false (Node.document radioNode)).toExcept =
      .ok { name := "D", peripherals := [radio (strippedAll radioCopies)] } ∧
    ∃ root, Node.ofText? (Node.document radioNode) = some root ∧
      ∃ children ∈ peripheralNodes root.parts,
        copyListOfSvd "registers" [] (radio []).defaults [] (registerNodes children) =
          .ok radioCopies ∧
        mirror ∈ registersAll radioCopies ∧ mirror.fields = [field "RXEN"] ∧
        (radio (strippedAll radioCopies)).fieldsOf mirror.stripped = .ok [field "TXEN"] := by
  have htree : Node.ofText? (Node.document radioNode) = some (radioNode.laid 0) :=
    Node.ofText?_document (by decide +kernel) (by decide +kernel)
  have hcopies : ∀ children ∈ peripheralNodes (radioNode.laid 0).parts,
      copyListOfSvd "registers" [] (radio []).defaults [] (registerNodes children) =
        .ok radioCopies := by decide +kernel
  obtain ⟨children, hchildren⟩ : ∃ children, children ∈ peripheralNodes (radioNode.laid 0).parts :=
    List.exists_mem_of_ne_nil _ (by decide +kernel)
  refine ⟨?_, _, htree, children, hchildren, hcopies children hchildren, ?_, rfl, ?_⟩
  · rw [readSvd, htree]
    decide +kernel
  · decide +kernel
  · decide +kernel

end Example

end Device

end RegisterMap
