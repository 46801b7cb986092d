import RegisterMap.Peripheral

/-!
# Clusters

Peripherals that repeat a group of registers under numbered names get the group as an array of
clusters. Each register of the first instance becomes a member when the same register of the
other instances follows at a constant distance.
-/

namespace RegisterMap.Clusters

open Pattern

/-! ## Rules -/

/-- How the registers of a repeated group are named. -/
structure Rule where
  pattern : Pattern
  array : Template
  index : Template
  member : Template
  /-- The name of the cluster with the format of its register macros. -/
  cluster : String

def g1 : Template := [.group 1]
def g2 : Template := [.group 2]
def g3 : Template := [.group 3]

/-- The rule of a name with a number at its end. -/
def byNumber (name : Pattern) (cluster : String) : Rule :=
  ⟨all [group 1 name, group 2 digits], g1, g2, g1, cluster⟩

/-- The rule of a name with a number at its end, which an underscore may set off. -/
def byOffNumber (name : Pattern) (cluster : String) : Rule :=
  ⟨all [group 1 name, maybe (lit "_"), group 2 digits], g1, g2, g1, cluster⟩

/-- Any character that is not a decimal digit. -/
def notDigit (c : Char) : Bool := !Text.isDecimal c

def mpu : List Rule :=
  [byNumber (all [lit "E", one inLine, lit "R"]) "SP,@p@f@i",
   ⟨all [group 1 (lit "RGD"), group 2 digits, lit "_", group 3 (all [lit "WORD", anything])],
    g1, g2, g3, "RGD,@p@a@i_@f"⟩]

def fmc : List Rule :=
  [⟨all [group 1 (lit "DATAW"), group 2 digits, group 3 (all [lit "S", anything])],
    g1, g2, g3, "DATAW,@pDATAW@i@f"⟩,
   ⟨all [group 1 (lit "TAGVDW"), group 2 digits, group 3 (all [lit "S", anything])],
    g1, g2, g3, "TAGVDW,@pTAGVDW@i@f"⟩]

def lpit : List Rule := [byNumber (words ["TVAL", "CVAL", "TCTRL"]) "TMR,@p@f@i"]

def eim : List Rule :=
  [⟨all [group 1 (lit "EICHD"), group 2 digits, lit "_", group 3 (words ["WORD0", "WORD1"])],
    g1, g2, g3, "EICHDn,@p@f@i"⟩]

def erm : List Rule := [byNumber (lit "EAR") "EARn,@p@f@i"]

def can : List Rule :=
  [byNumber (words ["CS", "ID", "WORD0", "WORD1"]) "MB,@p@f@i",
   ⟨all [group 1 (lit "WMB"), group 2 digits, lit "_", group 3 (words ["CS", "ID", "D03", "D47"])],
    g3, g2, [.group 1, .text "n_", .group 3], "WMB,@p@f@i"⟩]

def fb : List Rule := [byNumber (all [lit "CS", run notDigit 1 true]) "CS,@p@f@i"]

def pdb : List Rule :=
  [⟨all [group 1 (lit "CH"), group 2 digits,
      group 3 (either [lit "C1", lit "S", all [lit "DLY", anything]])],
    g1, g2, g3, "CH,@pCH@i@f"⟩,
   ⟨all [group 1 (lit "DAC"), group 2 (words ["INTC", "INT"]), group 3 digits],
    g1, g3, g2, "DAC,@pDAC@f@i"⟩]

def pit : List Rule := [byNumber (run notDigit 1 true) "CHANNEL,@p@f@i"]

def intmux : List Rule :=
  [⟨all [group 1 (lit "CH"), group 2 digits, lit "_",
      group 3 (words ["CSR", "VEC", "IER_31_0", "IPR_31_0"])],
    g1, g2, g3, "CHANNEL,@p@f@i"⟩]

def dma : List Rule :=
  [⟨all [maybe (lit "DMA_"), group 1 (lit "TCD"), group 2 digits, lit "_", group 3 anything],
    g1, g2, g3, "TCD,@p@a@i_@f"⟩,
   byNumber (either [lit "SAR", lit "DAR", all [lit "DSR", anything], lit "DCR"]) "DMA,@p@f@i",
   byOffNumber (words ["SAR", "DAR", "DSR", "DCR", "BCR"]) "CH,@p@f@i"]

def timer : List Rule :=
  [⟨all [group 1 (lit "C"), group 2 digits, group 3 (words ["SC", "V"])],
    g1, g2, [.text "Cn", .group 3], "CONTROLS,@pC@i@f"⟩]

def dac : List Rule :=
  [⟨all [group 1 (lit "DAT"), group 2 digits, group 3 anything],
    g1, g2, [.group 1, .group 3], "DAT,@p@f@i"⟩]

def axbs : List Rule := [byNumber (all [one inLine, lit "RS"]) "SLAVE,@p@f@i"]

def usb : List Rule := [byNumber (lit "ENDPT") "ENDPOINT,@p@f@i"]

def dwt : List Rule := [byNumber (words ["COMP", "MASK", "FUNCTION"]) "COMPARATOR,@p@f@i"]

def mtbdwt : List Rule := [byNumber (words ["COMP", "MASK", "FCT"]) "COMPARATOR,@p@f@i"]

def canmb : List Rule :=
  [byOffNumber
    (words ["CODE", "CTRL", "TIME", "ID", "DATA_WORD_1", "DATA_WORD_2", "DATA_WORD_3",
      "DATA_WORD_4"])
    "MB,@p@f@i"]

def dtim : List Rule :=
  [byOffNumber (words ["DTMR", "DTXMR", "DTER", "DTRR", "DTCR", "DTCN"]) "CH,@p@f@i"]

def fbcs : List Rule := [byOffNumber (words ["CSAR", "CSMR", "CSCR"]) "CH,@p@f@i"]

/-- The rules by peripheral. -/
def rules : List (List String × List Rule) :=
  [(["MPU"], mpu),
   (["FMC"], fmc),
   (["LPIT0", "LPIT1"], lpit),
   (["EIM"], eim),
   (["ERM"], erm),
   (["CAN0", "CAN1", "CAN2"], can),
   (["FB"], fb),
   (["PDB", "PDB0"], pdb),
   (["PIT", "PIT0"], pit),
   (["INTMUX", "INTMUX0"], intmux),
   (["DMA", "DMA0", "DMA1"], dma),
   (["FTM0", "FTM1", "FTM2", "FTM3", "TPM0", "TPM1", "TPM2", "TPM3"], timer),
   (["DAC0", "DAC1"], dac),
   (["AXBS"], axbs),
   (["USB0"], usb),
   (["DWT"], dwt),
   (["MTBDWT"], mtbdwt),
   (["CANMB"], canmb),
   (["DTIM"], dtim),
   (["FBCS"], fbcs)]

/-- The rules of a peripheral. -/
def rulesOf (peripheral : String) : List Rule :=
  ((rules.find? fun (names, _) => names.contains peripheral).map Prod.snd).getD []

/-- What a register name says about its place in a repeated group. -/
structure Part where
  array : String
  index : String
  member : String
  deriving DecidableEq, Repr

/-- The part that a register name spells. -/
def Rule.part? (rule : Rule) (register : String) : Option Part :=
  (rule.pattern.groups? register).map fun gs =>
    ⟨rule.array.fill gs, rule.index.fill gs, rule.member.fill gs⟩

/-- The register of an element that is not deleted, and its part. -/
def Rule.register? (rule : Rule) : Element → Option (Register × Part)
  | .register r => if r.deleted then none else (rule.part? r.name).map (r, ·)
  | .cluster _ _ => none

/-! ## Instances of one member -/

/-- The first instance of a member. -/
structure Seed where
  rule : Rule
  peripheral : String
  register : Register
  part : Part

/-- The instances of a member found so far. -/
structure Instances where
  stride : Nat := 0
  indexes : List String
  warnings : List Warning := []

/-- The distance of an element behind the seed, and its index, when it is another instance. -/
def Seed.instance? (s : Seed) (e : Element) : Option (Register × Nat × String) :=
  match s.rule.register? e with
  | none => none
  | some (r, part) =>
    let distance := r.offset - s.register.offset
    if part.array == s.part.array && part.member == s.part.member && distance != 0 then
      some (r, distance, part.index)
    else none

/-- The distance is that of the next instance; the first of them sets the stride. -/
def Instances.expects (i : Instances) (distance : Nat) : Bool :=
  i.stride == 0 || distance == i.indexes.length * i.stride

/-- The instances with one more. -/
def Instances.push (i : Instances) (distance : Nat) (index : String) : Instances :=
  { i with
    stride := if i.stride = 0 then distance else i.stride
    indexes := i.indexes ++ [index] }

/-- The instances with a warning of one at an unexpected distance. -/
def Instances.warn (i : Instances) (s : Seed) (r : Register) (distance : Nat) : Instances :=
  { i with
    warnings := i.warnings ++
      [.strideMismatch s.peripheral r.name s.register.name (i.indexes.length * i.stride)
        distance] }

/-- Collects the instances behind the first one, and the elements without them. -/
def Seed.gather (s : Seed) : Instances → List Element → Instances × List Element
  | i, [] => (i, [])
  | i, e :: es =>
    match s.instance? e with
    | none =>
      let (i, es) := s.gather i es
      (i, e :: es)
    | some (r, distance, index) =>
      if i.expects distance then
        let (i, es) := s.gather (i.push distance index) es
        (i, e.delete :: es)
      else
        let (i, es) := s.gather (i.warn s r distance) es
        (i, e :: es)

theorem Seed.length_gather (s : Seed) (i : Instances) (es : List Element) :
    (s.gather i es).2.length = es.length := by
  fun_induction s.gather i es <;> simp_all

/-! ## The cluster -/

/-- The cluster as far as it was found, with its members at offsets of the peripheral. -/
abbrev Found := Option (Cluster × List Element)

/-- The cluster that a first member begins. -/
def Rule.begin (rule : Rule) (offset : Nat) (dim : Dim) : Cluster :=
  { name := rule.cluster, offset, dim := some dim }

/-- The cluster with a register of its first instance as one more member. -/
def addMember (c : Cluster) (members : List Element) (r : Register) (name : String) :
    Cluster × List Element :=
  ({ c with offset := min c.offset r.offset },
    members ++ [.register { r with name, deleted := false }])

/-- A level as far as it was grouped: its elements, the cluster, and the warnings. -/
structure Grouped where
  elements : List Element := []
  found : Found := none
  warnings : List Warning := []

/-- Groups the elements of a level from the first on. The members that are found with the strides
and indexes of the first member join its cluster; others stay. -/
def Rule.group (rule : Rule) (peripheral : String) : Found → List Element → Grouped
  | found, [] => { found }
  | found, e :: es =>
    match rule.register? e with
    | none =>
      let g := rule.group peripheral found es
      { g with elements := e :: g.elements }
    | some (r, part) =>
      let seed : Seed := { rule, peripheral, register := r, part }
      let gathered := seed.gather { indexes := [part.index] } es
      let instances := gathered.1
      if instances.indexes.length = 1 then
        let g := rule.group peripheral found es
        { g with elements := e :: g.elements, warnings := instances.warnings ++ g.warnings }
      else
        let dim : Dim := ⟨instances.stride, instances.indexes⟩
        let (c, members) := found.getD (rule.begin r.offset dim, [])
        if c.dim = some dim then
          let g := rule.group peripheral (some (addMember c members r part.member)) gathered.2
          { g with
            elements := e.delete :: g.elements
            warnings := instances.warnings ++ g.warnings }
        else
          let g := rule.group peripheral (some (c, members)) es
          { g with
            elements := e :: g.elements
            warnings :=
              instances.warnings ++ .clusterMismatch peripheral part.member c.baseName ::
                g.warnings }
termination_by _ es => es.length
decreasing_by all_goals simp [Seed.length_gather]

/-- The cluster as an element, its members at offsets of their own and in layout order. -/
def assemble (c : Cluster) (members : List Element) : Element :=
  .cluster c
    (Element.sortAll (members.map fun e => e.withOffset (e.offset - c.offset)))

/-- Applies one rule to the registers of a peripheral. -/
def Rule.apply (rule : Rule) (p : Peripheral) : Outcome Peripheral :=
  let g := rule.group p.name none p.sort.registers
  let rest := Element.compactAll g.elements
  { state := { p with
      registers := Element.sortAll (rest ++ (g.found.map fun (c, es) => assemble c es).toList) }
    warnings := g.warnings }

end RegisterMap.Clusters

namespace RegisterMap

/-- The peripheral with the repeated groups of its registers as arrays of clusters. A derived one
stays as it is. -/
def Peripheral.groupClusters (p : Peripheral) : Outcome Peripheral :=
  if p.isDerived then .pure p
  else
    ((Clusters.rulesOf p.name).foldl (fun o rule => o.andThen rule.apply) (Outcome.pure p)).map
      Peripheral.sort

end RegisterMap
