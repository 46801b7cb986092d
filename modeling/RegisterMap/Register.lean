import RegisterMap.Field

/-!
# Registers

The addressable words of a peripheral: their arrays, their fields and the checks on them.
-/

namespace RegisterMap

/-- What makes an array of a register or cluster: the way from one element to the next in bytes,
and the index text of each element. -/
structure Dim where
  stride : Nat
  indexes : List String
  deriving DecidableEq, Repr, Inhabited

namespace Dim

/-- The indexes `0`, `1`, … -/
def counted (stride count : Nat) : Dim := ⟨stride, (List.range count).map toString⟩

def count (d : Dim) : Nat := d.indexes.length

@[simp] theorem count_counted (stride n : Nat) : (counted stride n).count = n := by
  simp [counted, count]

/-- The indexes are the numbers from 0 on. -/
def isSequential (d : Dim) : Bool := d.indexes == (List.range d.count).map toString

/-- The text that stands for the index of an element; a colon ends it. -/
def indexText (d : Dim) (i : Nat) : String :=
  .ofList ((d.indexes.getD i "").toList.takeWhile (· != ':'))

end Dim

/-- What a description asks for a register or cluster. -/
structure Flags where
  /-- Shares no address block with its neighbours. -/
  isolated : Bool := false
  /-- Is left out of the header. -/
  hidden : Bool := false
  /-- Is declared as an array whatever its name. -/
  keepAsArray : Bool := false
  /-- Has field macros though it is derived. -/
  derivedMacros : Bool := false
  deriving DecidableEq, Repr, Inhabited

/-- A word of fixed width at an offset from its owner, or an array of such words. -/
structure Register where
  /-- May hold a placeholder for the index of an element. -/
  name : String
  description : String := ""
  offset : Nat
  /-- Width in bits. -/
  width : Nat
  access : Access
  resetValue : Nat
  resetMask : Nat
  dim : Option Dim := none
  /-- The register of the same peripheral whose fields describe this one. -/
  derivedFrom : Option String := none
  flags : Flags := {}
  fields : List Field := []
  /-- Has been folded into another register and waits to be taken out. -/
  deleted : Bool := false
  deriving DecidableEq, Repr, Inhabited

/-- The differences that a comparison passes over. -/
structure Comparison where
  ignoreReset : Bool := false
  ignoreAccess : Bool := false
  deriving DecidableEq, Repr, Inhabited

namespace Register

/-- The bytes of one element. -/
def elementSize (r : Register) : Nat := Bits.bytes r.width

/-- The bytes from the first element to the end of the last stride. -/
def totalSize (r : Register) : Nat :=
  match r.dim with
  | some d => d.stride * d.count
  | none => r.elementSize

@[simp] theorem totalSize_of_dim_none {r : Register} (h : r.dim = none) :
    r.totalSize = r.elementSize := by
  simp [totalSize, h]

/-- The name without its placeholder. -/
def baseName (r : Register) : String := Placeholder.dropFrom r.name

/-- The elements follow each other without a gap and are numbered from 0. -/
def isPacked (r : Register) : Bool :=
  r.dim.any fun d => d.isSequential && d.stride == r.elementSize

/-- An array with one placeholder, at the end of its name, and packed elements. -/
def isSimpleArray (r : Register) : Bool :=
  Placeholder.isLast r.name && Placeholder.count r.name == 1 && r.isPacked

/-- The array is one member of the C structure. -/
def isDeclaredAsArray (r : Register) : Bool :=
  r.isSimpleArray || (r.flags.keepAsArray && r.isPacked)

/-- The field is empty or reaches past the register. -/
def excludes (r : Register) (f : Field) : Bool :=
  f.bitWidth == 0 || min r.width 64 < f.bitEnd

/-- Checks fields one by one, with the bits that are already taken. -/
def checkBits (r : Register) : (used : Nat) → List Field → Except Failure Unit
  | _, [] => .ok ()
  | used, f :: fs =>
    if r.excludes f then fail (.fieldOutsideRegister f.name r.name)
    else if f.ignoreOverlap then checkBits r used fs
    else if used &&& f.mask != 0 then fail (.overlappingFields f.name r.name)
    else checkBits r (used ||| f.mask) fs

/-- Every field lies in the register and takes bits of its own. -/
def checkFieldBits (r : Register) : Except Failure Unit := r.checkBits 0 r.fields

/-- The access of every field goes with that of the register. -/
def checkFieldAccess (r : Register) : Except Failure Unit :=
  r.fields.forM fun f =>
    match f.access with
    | some a => if (a.meet? r.access).isSome then .ok () else fail (.fieldAccess f.name a)
    | none => .ok ()

/-- The field of a list whose enumerations a derived field shares. -/
def enumerationSource? (fields : List Field) (name : String) : Option Field :=
  fields.find? fun f => f.name == name && f.derivedFrom.isNone

/-- The enumerations of a field among its siblings, its own or those it shares. -/
def enumerationsAmong (fields : List Field) (f : Field) : Except Failure (List Enumeration) :=
  match f.derivedFrom with
  | none => .ok f.enumerations
  | some name =>
    match enumerationSource? fields name with
    | some source => .ok source.enumerations
    | none => fail (.unresolvedDerivation name)

/-- The enumerations of a field of the register. -/
def enumerationsOf (r : Register) (f : Field) : Except Failure (List Enumeration) :=
  enumerationsAmong r.fields f

/-- All checks that concern the register alone. -/
def validate (r : Register) : Except Failure Unit :=
  within (.register r.name) do
    r.checkFieldBits
    r.checkFieldAccess
    r.fields.forM fun f => do discard (r.enumerationsOf f)

def field? (r : Register) (name : String) : Option Field := r.fields.find? fun f => f.name == name

/-- The fields by position, then by name. -/
def sortedFields (r : Register) : List Field := r.fields.mergeSort Field.precedes

/-- The register with its fields in order. -/
def sortFields (r : Register) : Register := { r with fields := r.sortedFields }

/-- The same width, array, access, reset state and fields, once the indexes are taken out. -/
def equivalentBody (a b : Register) (i j : Option String) (cmp : Comparison) : Bool :=
  a.width == b.width && a.fields.length == b.fields.length && a.dim == b.dim &&
    (cmp.ignoreAccess || a.access == b.access) &&
    (cmp.ignoreReset || (a.resetValue == b.resetValue && a.resetMask == b.resetMask)) &&
    (a.sortedFields.zip b.sortedFields).all fun (f, g) => f.equivalent g i j

/-- The registers may be elements of one array. Names are not compared, descriptions are. -/
def equivalent (a b : Register) (i j : Option String) (cmp : Comparison) : Bool :=
  a.equivalentBody b i j cmp &&
    Text.sameLetters (Placeholder.insert i a.description) (Placeholder.insert j b.description)

/-- The registers are laid out alike. -/
def equivalentLayout (a b : Register) (cmp : Comparison) : Bool := a.equivalentBody b none none cmp

/-- Derives each field from the first earlier one with the same enumerations. -/
def shareEnumerations : (earlier : List Field) → List Field → List Field
  | _, [] => []
  | earlier, f :: fs =>
    let f' :=
      match f.derivedFrom with
      | some _ => f
      | none =>
        match earlier.find? fun e => e.derivedFrom.isNone && e.similar f with
        | some e => { f with derivedFrom := some e.name, enumerations := [] }
        | none => f
    f' :: shareEnumerations (earlier ++ [f']) fs

/-- The register with its fields in order and equal enumerations shared. -/
def extractSimilarFields (r : Register) : Register :=
  { r with fields := shareEnumerations [] r.sortedFields }

end Register

end RegisterMap
