import RegisterMap.Peripheral

/-!
# Register arrays

Registers that are named with consecutive indexes, lie one behind the other and are alike become
one array. The first of them stands for all; the others are deleted and taken out at the end, so
that a peripheral that cannot be folded keeps every register.
-/

namespace RegisterMap.Arrays

open Pattern

/-! ## Names with an index -/

/-- How register names are split into the name of an array and the text of an index. -/
structure IndexRule where
  pattern : Pattern
  name : Template
  index : Template

/-- The index is put between the first and the third group. -/
def inside : Template := [.group 1, .text "%s", .group 3]

/-- The rule of a peripheral that has none of its own: a number or a hexadecimal letter ends the
name. -/
def usualRule : IndexRule where
  pattern :=
    all [group 1 little,
      group 2 (alt digits (one fun c => between 'A' 'F' c || between 'a' 'f' c || c == '|'))]
  name := [.group 1, .text "%s"]
  index := [.group 2]

/-- The rules of some peripherals. -/
def rules : List (List String × IndexRule) :=
  [(["ADC0", "ADC1"],
    { pattern :=
        all [group 1 (either [lit "SC1", lit "R", something]), group 2 (asciiDigits 1),
          group 3 anything]
      name := inside, index := [.group 2] }),
   (["ITM", "ITM0", "PDB", "PDB0"],
    { pattern := all [group 1 something, group 2 (asciiDigits 1), group 3 anything]
      name := inside, index := [.group 2] }),
   (["LTC", "LTC0"],
    { pattern := all [group 1 something, lit "_", group 2 (asciiDigits 1)]
      name := [.group 1, .text "%s"], index := [.group 2] })]

/-- The entry of a table for a peripheral. -/
def ofPeripheral? (table : List (List String × α)) (peripheral : String) : Option α :=
  (table.find? fun (names, _) => names.contains peripheral).map Prod.snd

/-- The rule of a peripheral. -/
def ruleOf (peripheral : String) : IndexRule := (ofPeripheral? rules peripheral).getD usualRule

/-- The name of the array and the index in a register name. -/
def IndexRule.split? (rule : IndexRule) (register : String) : Option (String × String) :=
  (rule.pattern.groups? register).map fun gs => (rule.name.fill gs, rule.index.fill gs)

/-- The registers that some peripherals keep apart. -/
def keptApart : List (List String × Pattern) :=
  [(["ITM", "DWT", "FPB", "TPIU", "ETM", "ETB", "ETF", "FMC"], all [lit "PID", anything]),
   (["ADC", "ADC0", "ADC1"], all [lit "CLP", anything]),
   (["PCC"], all [lit "PCC_", anything]),
   (["TRGMUX", "TRGMUX0", "TRGMUX1"], all [anything, lit "_", anything]),
   (["MCG"], anything)]

/-- The register is kept apart. -/
def isKeptApart (peripheral register : String) : Bool :=
  (ofPeripheral? keptApart peripheral).any (·.isMatch register)

/-! ## Folding -/

/-- Letters, bars and blanks: the characters of a description around an index. -/
def isProse (c : Char) : Bool :=
  between 'a' 'z' c || between 'A' 'Z' c || c == '|' || Text.isBlank c

/-- The description of an array, from that of the element with the index. -/
def describe (index description : String) : String :=
  (all [group 1 (run isProse 1 true), lit index, group 2 (run isProse 0 true)]).replaceFirst
    [.group 1, .text "%s", .group 2] description

/-- An element of a level, with what folding makes of its inside. -/
structure Candidate where
  element : Element
  folded : Element
  failure : Option Failure
  deriving Inhabited

/-- The candidate as one that is part of an array. -/
def Candidate.delete (c : Candidate) : Candidate := { c with element := c.element.delete }

/-- The first register of an array that is sought. -/
structure Seed where
  rule : IndexRule
  comparison : Comparison
  register : Register
  array : String
  index : String

/-- The register may be part of an array: it is no array, not derived and not deleted. -/
def isSingle (r : Register) : Bool := !r.deleted && r.derivedFrom.isNone && r.dim.isNone

/-- The index of an element that comes next in the array, after `count` others. -/
def Seed.takes? (s : Seed) (count : Nat) (e : Element) : Option String :=
  match e with
  | .cluster _ _ => none
  | .register r =>
    if isSingle r then
      match s.rule.split? r.name with
      | some (array, index) =>
        if array == s.array && r.offset == s.register.offset + count * s.register.elementSize &&
            s.register.equivalent r (some s.index) (some index) s.comparison then
          some index
        else none
      | none => none
    else none

/-- Collects the indexes of the array from the elements behind its first one, and deletes those
elements. -/
def Seed.gather (s : Seed) : (indexes : List String) → List Candidate →
    List String × List Candidate
  | indexes, [] => (indexes, [])
  | indexes, c :: cs =>
    match s.takes? indexes.length c.element with
    | some index =>
      let (indexes, cs) := s.gather (indexes ++ [index]) cs
      (indexes, c.delete :: cs)
    | none =>
      let (indexes, cs) := s.gather indexes cs
      (indexes, c :: cs)

theorem Seed.length_gather (s : Seed) (indexes : List String) (cs : List Candidate) :
    (s.gather indexes cs).2.length = cs.length := by
  fun_induction s.gather indexes cs <;> simp_all

/-- The array that begins with the register. -/
def Seed.toArray (s : Seed) (indexes : List String) : Register :=
  { s.register with
    name := s.array
    description := describe s.index s.register.description
    dim := some ⟨s.register.elementSize, indexes⟩ }

/-- Where the registers of one level are folded. -/
structure Site where
  peripheral : String
  comparison : Comparison

/-- The array that a register may begin, none when it is kept apart or has no index. -/
def Site.seed? (site : Site) (r : Register) : Option Seed :=
  if isSingle r && !isKeptApart site.peripheral r.name then
    ((ruleOf site.peripheral).split? r.name).map fun (array, index) =>
      { rule := ruleOf site.peripheral, comparison := site.comparison, register := r, array, index }
  else none

/-- One level as far as it was folded, and why not further. -/
abbrev Level := List Element × Option Failure

/-- Folds the elements of a level from the first on. -/
def Site.foldLevel (site : Site) : List Candidate → Level
  | [] => ([], none)
  | c :: cs =>
    match c.element with
    | .cluster _ _ =>
      match c.failure with
      | some f => (c.folded :: cs.map Candidate.element, some f)
      | none =>
        let (es, f) := site.foldLevel cs
        (c.folded :: es, f)
    | .register r =>
      if isSingle r && Placeholder.isIn r.name then
        (.register r :: cs.map Candidate.element, some (Cause.alreadyFolded site.peripheral r.name))
      else
        match site.seed? r with
        | none =>
          let (es, f) := site.foldLevel cs
          (.register r :: es, f)
        | some seed =>
          let gathered := seed.gather [seed.index] cs
          let here := if gathered.1.length = 1 then r else seed.toArray gathered.1
          let (es, f) := site.foldLevel gathered.2
          (.register here :: es, f)
termination_by cs => cs.length
decreasing_by all_goals simp [Seed.length_gather]

mutual

/-- What folding makes of the inside of an element. -/
def Site.foldInside (site : Site) : Element → Element × Option Failure
  | .register r => (.register r, none)
  | .cluster c es =>
    let (es, f) := site.foldLevel
      ((site.candidates es).mergeSort fun a b => a.element.precedes b.element)
    (.cluster c (if f.isSome then es else es.filter (!·.deleted)), f)

/-- The elements of a level with their folded insides. -/
def Site.candidates (site : Site) : List Element → List Candidate
  | [] => []
  | e :: es =>
    let (folded, failure) := site.foldInside e
    ⟨e, folded, failure⟩ :: site.candidates es

end

/-- Folds the elements of a list in layout order. -/
def Site.fold (site : Site) (es : List Element) : Level :=
  site.foldLevel ((site.candidates es).mergeSort fun a b => a.element.precedes b.element)

end RegisterMap.Arrays

namespace RegisterMap

/-- The peripheral with its register arrays folded, at every level. A derived one stays as it is;
one that has arrays without indexes already is left as far as it was folded. -/
def Peripheral.foldArrays (p : Peripheral) (cmp : Comparison) : Outcome Peripheral :=
  if p.isDerived then .pure p
  else
    let (es, f) := Arrays.Site.fold ⟨p.name, cmp⟩ p.registers
    match f with
    | some f => { state := { p with registers := es }, failure := some f }
    | none => .pure { p with registers := es }.compact.sort

end RegisterMap
