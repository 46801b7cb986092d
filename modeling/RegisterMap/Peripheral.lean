import RegisterMap.AddressBlock
import RegisterMap.Element
import RegisterMap.Interrupt
import RegisterMap.Pattern

/-!
# Peripherals

Groups of registers at a base address, their names, their validity and their address blocks.
-/

namespace RegisterMap

/-- A group of registers at a base address. -/
structure Peripheral where
  name : String
  description : String := ""
  groupName : Option String := none
  prependToName : Option String := none
  appendToName : Option String := none
  headerStructName : Option String := none
  baseAddress : Nat
  width : Nat := 32
  access : Access := .readWrite
  resetValue : Nat := 0
  resetMask : Nat := 0xFFFFFFFF
  /-- The peripheral that has the registers of this one. -/
  derivedFrom : Option String := none
  /-- In bits, 0 for none. -/
  preferredAccessWidth : Nat := 0
  /-- In bits, 0 for none. -/
  forcedBlockMultiple : Nat := 0
  registers : List Element := []
  addressBlocks : List AddressBlock := []
  interrupts : List Interrupt := []
  deriving DecidableEq, Repr, Inhabited

namespace Peripheral

def isDerived (p : Peripheral) : Bool := p.derivedFrom.isSome

/-! ## Names -/

section Names

open Pattern

/-- What the headers call some peripherals that vendors name otherwise. -/
def aliases : List Renaming :=
  [⟨all [lit "PT", group 1 (one (between 'A' 'F'))], [.text "GPIO", .group 1]⟩,
   ⟨all [lit "FPT", group 1 (one (between 'A' 'F'))], [.text "FGPIO", .group 1]⟩,
   ⟨all [lit "FTF", one fun c => ['A', 'L', 'E'].contains c, lit "_FlashConfig"], [.text "NV"]⟩,
   ⟨lit "SystemControl", [.text "SCB"]⟩,
   ⟨lit "SysTick", [.text "SYST"]⟩]

/-- The name of a peripheral in headers. -/
def commonName (name : String) : String := Renaming.rename aliases name

/-- A family name followed by instance letters. -/
def lettered (family : String) : Pattern :=
  all [group 1 (lit family), run (between 'A' 'F') 0 true]

/-- A family name followed by an instance number. -/
def numbered (family : String) : Pattern := group 1 (all [group 2 (lit family), asciiDigits 0])

/-- The families that share a typedef, and those before them whose members keep their own. -/
def families : List Renaming :=
  [⟨numbered "FTM", [.group 1]⟩,
   ⟨numbered "TPM", [.group 1]⟩,
   ⟨numbered "EPORT", [.group 1]⟩,
   ⟨lettered "GPIO", [.group 1]⟩,
   ⟨lettered "FGPIO", [.group 1]⟩,
   ⟨lettered "PT", [.group 1]⟩,
   ⟨numbered "LTC", [.group 2]⟩]

/-- The name of the typedef that the family of a peripheral shares. -/
def familyName (name : String) : String := Renaming.rename families name

/-- The name of a peripheral without the number of the instance. -/
def instanceGroup (name : String) : String :=
  Renaming.rename [⟨all [group 1 (run inLine 0 false), asciiDigits 0], [.group 1]⟩] name

end Names

/-- The group that the peripheral names, or else its name without the number of the instance. -/
def ownGroupName (p : Peripheral) : String := p.groupName.getD (instanceGroup p.name)

/-! ## Registers -/

/-- The peripheral with one more element; a derived one has none of its own. -/
def addElement (p : Peripheral) (e : Element) : Except Failure Peripheral :=
  if p.isDerived then fail (.derivedOwnsRegisters p.name)
  else .ok { p with registers := p.registers ++ [e] }

/-- The peripheral as one with the registers of another. -/
def deriveFrom (p : Peripheral) (source : String) : Peripheral :=
  { p with derivedFrom := some source, registers := [], addressBlocks := [] }

@[simp] theorem isDerived_deriveFrom (p : Peripheral) (source : String) :
    (p.deriveFrom source).isDerived = true := rfl

/-- The peripheral with its elements in layout order. -/
def sort (p : Peripheral) : Peripheral := { p with registers := Element.sortAll p.registers }

/-- The peripheral without deleted elements. -/
def compact (p : Peripheral) : Peripheral :=
  { p with registers := Element.compactAll p.registers }

/-- The fields that describe a register of the peripheral, its own or those of its source. -/
def fieldsOf (p : Peripheral) (r : Register) : Except Failure (List Field) :=
  match r.derivedFrom with
  | none => .ok r.fields
  | some source =>
    match Element.findIn? source p.registers with
    | some s => .ok s.fields
    | none => fail (.unresolvedDerivation source)

theorem fieldsOf_of_none (p : Peripheral) {r : Register} (h : r.derivedFrom = none) :
    p.fieldsOf r = .ok r.fields := by
  simp [fieldsOf, h]

/-- The register is valid and derives, if it does, from one in the tree that does not. -/
def checkRegister (tree : List Element) (r : Register) : Except Failure Unit := do
  r.validate
  match r.derivedFrom with
  | none => .ok ()
  | some source =>
    match Element.findIn? source tree with
    | some s =>
      if s.derivedFrom.isNone then .ok ()
      else within (.register r.name) (fail (.unresolvedDerivation source))
    | none => within (.register r.name) (fail (.unresolvedDerivation source))

mutual

/-- Checks every register of an element of the tree. -/
def checkElement (tree : List Element) : Element → Except Failure Unit
  | .register r => checkRegister tree r
  | .cluster c es => within (.cluster c.name) (checkElements tree es)

/-- Checks every register of the elements, in order. -/
def checkElements (tree : List Element) : List Element → Except Failure Unit
  | [] => .ok ()
  | e :: es => do
    checkElement tree e
    checkElements tree es

end

/-- Every register is valid, and every derivation of one can be followed. -/
def validate (p : Peripheral) : Except Failure Unit :=
  if p.isDerived && !p.registers.isEmpty then fail (.derivedOwnsRegisters p.name)
  else within (.peripheral p.name) (checkElements p.registers p.registers)

/-- The same defaults and registers. Names, descriptions and addresses of the peripherals do not
count. -/
def equivalent (a b : Peripheral) (cmp : Comparison) : Bool :=
  a.width == b.width && a.access == b.access && a.resetValue == b.resetValue &&
    a.resetMask == b.resetMask && a.preferredAccessWidth == b.preferredAccessWidth &&
    a.forcedBlockMultiple == b.forcedBlockMultiple &&
    Element.equivalentAll cmp (Element.sortLevel a.registers) (Element.sortLevel b.registers)

/-! ## Address blocks -/

/-- The offsets of the elements of an array, or of the one element. -/
def strides : Option Dim → List Nat
  | none => [0]
  | some d => (List.range d.count).map (· * d.stride)

/-- The bytes that registers take, and the last isolation token in use. -/
abbrev Observed := List Observation × Nat

mutual

/-- Observes an element once for each of its offsets. Every instance of an isolated element gets
a token of its own. -/
def observe (base group : Nat) (seen : Observed) : Element → Observed
  | .register r =>
    (strides r.dim).foldl
      (fun (out, last) stride =>
        let last := if r.flags.isolated then last + 1 else last
        let isolation := if r.flags.isolated then last else group
        (out ++ [⟨base + r.offset + stride, r.elementSize, r.elementSize, r.access, isolation⟩],
          last))
      seen
  | .cluster c es =>
    (strides c.dim).foldl
      (fun (out, last) stride =>
        let last := if c.flags.isolated then last + 1 else last
        let isolation := if c.flags.isolated then last else group
        observeAll (base + c.offset + stride) isolation (out, last) es)
      seen

/-- Observes the elements in order. Those after an isolated one form a group of their own. -/
def observeAll (base group : Nat) (seen : Observed) : List Element → Observed
  | [] => seen
  | e :: es =>
    let (out, last) := observe base group seen e
    if e.flags.isolated then observeAll base (last + 1) (out, last + 1) es
    else observeAll base group (out, last) es

end

/-- The bytes that the registers take, in the order of their addresses. -/
def observations (es : List Element) : List Observation :=
  (observeAll 0 0 ([], 0) es).1.mergeSort fun a b => a.address ≤ b.address

/-- The address blocks of the registers. -/
def blocksOf (p : Peripheral) : Except Failure (List AddressBlock) :=
  within (.peripheral p.name) do
    let c ← Coalescing.start p.preferredAccessWidth p.forcedBlockMultiple
    let c ← c.addAll (observations p.registers)
    c.finish

/-- The peripheral with its registers in order and its address blocks made from them; a derived
one stays as it is. -/
def createAddressBlocks (p : Peripheral) : Outcome Peripheral :=
  if p.isDerived then .pure p
  else .ofExcept p.sort ((blocksOf p.sort).map fun bs => { p.sort with addressBlocks := bs })

end Peripheral

namespace VectorTable

/-- The interrupts of peripherals, each owned by its peripheral. -/
def interruptsOf (ps : List Peripheral) : List Interrupt :=
  ps.flatMap fun p => p.interrupts.map (Interrupt.ownedBy p.name)

/-- Adds the interrupts of peripherals. -/
def collect (t : VectorTable) (ps : List Peripheral) : Outcome VectorTable :=
  t.addAll (interruptsOf ps)

end VectorTable

end RegisterMap
