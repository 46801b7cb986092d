import RegisterMap.Enumeration

/-!
# Fields

Bit ranges of a register, with the enumerations of their values.
-/

namespace RegisterMap

/-- A bit range of a register. -/
structure Field where
  name : String := ""
  description : String := ""
  bitOffset : Nat := 0
  bitWidth : Nat := 0
  /-- The access of the field, that of the register when absent. -/
  access : Option Access := none
  /-- The field of the same register whose enumerations are shared. -/
  derivedFrom : Option String := none
  ignoreOverlap : Bool := false
  enumerations : List Enumeration := []
  deriving DecidableEq, Repr, Inhabited

namespace Field

/-- The bits of the register that the field takes. -/
def mask (f : Field) : Nat := Bits.runMask f.bitOffset f.bitWidth

/-- The first bit past the field. -/
def bitEnd (f : Field) : Nat := f.bitOffset + f.bitWidth

/-- The name with `n` for an index. -/
def baseName (f : Field) : String := Placeholder.fill "n" f.name

def accessIn (f : Field) (register : Access) : Access := f.access.getD register

@[simp] theorem accessIn_of_none {f : Field} (h : f.access = none) (register : Access) :
    f.accessIn register = register := by
  simp [accessIn, h]

/-- Puts an enumeration after the others, before the default if there is one. -/
def insertOrdered (e : Enumeration) (es : List Enumeration) : List Enumeration :=
  es.takeWhile (!·.isDefault) ++ e :: es.dropWhile (!·.isDefault)

/-- The field with one more enumeration. It keeps its default last and has at most one. -/
def addEnumeration (f : Field) (e : Enumeration) : Except Failure Field :=
  if e.isDefault && f.enumerations.any Enumeration.isDefault then fail (.secondDefault f.name)
  else if e.isDefault then .ok { f with enumerations := f.enumerations ++ [e] }
  else .ok { f with enumerations := insertOrdered e f.enumerations }

/-- The enumeration among several that describes a value, the default if no other does. -/
def selected? (es : List Enumeration) (value : Nat) : Option Enumeration :=
  (es.find? fun e => !e.isDefault && e.selects value).or (es.find? Enumeration.isDefault)

/-- The enumeration that describes a value of the field. -/
def enumerationFor? (f : Field) (value : Nat) : Option Enumeration :=
  selected? f.enumerations value

/-- Every enumeration of the first list has an equivalent one in the second. -/
def covered (as bs : List Enumeration) (i j : Option String) : Bool :=
  as.all fun a => bs.any fun b => a.equivalent b i j

/-- The same bits with the same access, name and enumerations, once the indexes are taken out. -/
def equivalent (a b : Field) (i j : Option String) : Bool :=
  a.access == b.access && a.bitOffset == b.bitOffset && a.bitWidth == b.bitWidth &&
    a.derivedFrom == b.derivedFrom && a.enumerations.length == b.enumerations.length &&
    (Text.sameLetters a.name b.name ||
      Text.sameLetters (Placeholder.insert i a.name) (Placeholder.insert j b.name)) &&
    covered a.enumerations b.enumerations i j && covered b.enumerations a.enumerations j i

/-- The enumerations in the order of their names. -/
def byName (es : List Enumeration) : List Enumeration :=
  es.mergeSort fun a b => decide (a.name ≤ b.name)

/-- The same width and, up to order, the same enumerations, and some: one field may share those
of the other. -/
def similar (a b : Field) : Bool :=
  a.bitWidth == b.bitWidth && !a.enumerations.isEmpty &&
    a.enumerations.length == b.enumerations.length &&
    ((byName a.enumerations).zip (byName b.enumerations)).all fun (x, y) =>
      x.name == y.name && x.equivalent y none none

/-- The order of fields in a register: by position, then by name. -/
def precedes (a b : Field) : Bool :=
  ((compare a.bitOffset b.bitOffset).then (compare a.name b.name)).isLE

end Field

end RegisterMap
