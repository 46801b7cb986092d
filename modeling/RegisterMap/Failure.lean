import RegisterMap.Access
import RegisterMap.Format
import RegisterMap.Text.Edit

/-!
# Failures

Why a description cannot be used, as a cause and the places that lead to it, and the wording of
both. A cause in the syntax of a document has no wording of its own.
-/

namespace RegisterMap

/-- What is wrong with the text of a number. -/
inductive NumeralFault
  | empty
  | badDigit
  | tooLarge
  deriving DecidableEq, Repr

def NumeralFault.message : NumeralFault → String
  | empty => "cannot parse integer from empty string"
  | badDigit => "invalid digit found in string"
  | tooLarge => "number too large to fit in target type"

/-- Why a step failed. -/
inductive Cause
  | fieldOutsideRegister (field register : String)
  | overlappingFields (field register : String)
  | notMonotonic (previous current : Nat)
  | accessCombination (a b : Access)
  | accessMask (mask : Nat)
  | fieldAccess (field : String) (access : Access)
  | blockMultiple (bits : Nat)
  | goingBackwards (current start : Nat)
  | unresolvedDerivation (source : String)
  | derivedOwnsRegisters (peripheral : String)
  | interruptRenamed (index : Int) (old new : String)
  | typedefClash (peripheral typedef : String)
  | macroRedefined (name : String)
  | tooComplex (name : String)
  | numeral (fault : NumeralFault)
  | aboveRange
  | belowRange
  | malformed (format : Format)
  | illegalBoolean (text : String)
  | illegalIndexRange (text : String)
  | illegalBitPattern (text : String)
  | illegalAccess (text : String)
  | illegalBitRange (text : String)
  | illegalFieldRange (field : String)
  | noWordType (width : Nat)
  | secondDefault (field : String)
  | enumeratedDerivedField (field : String)
  | alreadyFolded (peripheral register : String)
  | peripheralTwice (name : String)
  | wrongRoot (tag : String)
  | unexpectedElement (tag parent : String)
  | derivedCluster
  | unnamedDevice
  | unnamedPeripheral
  | unnamedRegister
  | unnamedInterrupt
  | unnumberedInterrupt (name : String)
  | interruptOrder (name : String)
  | countWithoutStride
  | strideWithoutCount
  | indexCount (listed count : Nat)
  deriving DecidableEq, Repr

/-- The wording of a cause, none for a syntax error. -/
def Cause.message? : Cause → Option String
  | fieldOutsideRegister field register => s!"Bit field '{field}' outside register '{register}'"
  | overlappingFields field register =>
    s!"Bit field '{field}' in register '{register}' overlaps with other fields"
  | notMonotonic previous current =>
    s!"Register addresses not monotonic, p=0x{Text.hex previous}, c=0x{Text.hex current}"
  | accessCombination a b => s!"Illegal access type combination {a.label} and {b.label}"
  | accessMask mask => s!"Access type mask 0x{Text.hex mask} has no matching access type"
  | fieldAccess field access =>
    s!"Bit field '{field}' access {access.name} is not compatible with its register"
  | blockMultiple bits => s!"Unexpected forced address block multiple {bits}"
  | goingBackwards current start =>
    s!"Address is going backwards 0x{Text.hex current} < 0x{Text.hex start}"
  | unresolvedDerivation source => s!"derivedFrom '{source}' could not be resolved"
  | derivedOwnsRegisters peripheral => s!"Derived peripheral '{peripheral}' may not own registers"
  | interruptRenamed index old new =>
    s!"InterruptEntry changed name, index {index}, '{old}' => '{new}'"
  | typedefClash peripheral typedef => s!"Peripheral typedef clash - {peripheral}, {typedef}"
  | macroRedefined name => s!"Redefined macro '{name}' has a different position or width"
  | tooComplex name => s!"Register too complex to describe as C declaration: '{name}'"
  | numeral fault => fault.message
  | aboveRange => "number too large to fit in target type"
  | belowRange => "number too small to fit in target type"
  | malformed _ => none
  | illegalBoolean text => s!"Illegal boolean '{text}'"
  | illegalIndexRange text => s!"Illegal dimIndex range '{text}'"
  | illegalBitPattern text => s!"Illegal enumeration value '{text}'"
  | illegalAccess text => s!"Illegal access type '{text}'"
  | illegalBitRange text => s!"Illegal bitRange '{text}'"
  | illegalFieldRange field => s!"Illegal bit range in field '{field}'"
  | noWordType width => s!"No C type for a width of {width} bits"
  | secondDefault field => s!"Field '{field}' has more than one default enumeration"
  | enumeratedDerivedField field => s!"Derived field '{field}' may not have enumerations"
  | alreadyFolded peripheral register =>
    s!"Merging register which is already merged {peripheral}.{register}"
  | peripheralTwice name => s!"Peripheral {name} declared twice"
  | wrongRoot tag => s!"Expected <device>, found <{tag}>"
  | unexpectedElement tag parent => s!"Unexpected element <{tag}> in <{parent}>"
  | derivedCluster => "derivedFrom is not supported on <cluster>"
  | unnamedDevice => "Device has no <name>"
  | unnamedPeripheral => "Peripheral has no <name>"
  | unnamedRegister => "Register has no <name>"
  | unnamedInterrupt => "Interrupt has no <name>"
  | unnumberedInterrupt name => s!"Interrupt '{name}' has no <value>"
  | interruptOrder name => s!"Interrupt vectors must be monotonic, '{name}'"
  | countWithoutStride => "<dim> requires <dimIncrement>"
  | strideWithoutCount => "<dimIncrement> without <dim>"
  | indexCount listed count => s!"<dimIndex> lists {listed} indexes but <dim> is {count}"

/-- Where a failure was met. -/
inductive Place
  | numberText (text : String)
  | element (tag : String)
  | field (name : String)
  | register (name : String)
  | cluster (name : String)
  | peripheral (name : String)
  | device (name : String)
  | reading (format : Format)
  | loading (device : String)
  | reducing (peripheral : String)
  | reduced (device : String)
  | writing (peripheral : String)
  | rendering (device : String)
  deriving DecidableEq, Repr

def Place.message : Place → String
  | numberText text => s!"Illegal number format '{text}'"
  | element tag => s!"In <{tag}>"
  | field name => s!"In field {name}"
  | register name => s!"In register {name}"
  | cluster name => s!"In cluster {name}"
  | peripheral name => s!"In peripheral {name}"
  | device name => s!"In device {name}"
  | reading format => s!"Error parsing SVD {format.title} file"
  | loading name => s!"Invalid device {name}"
  | reducing name => s!"Optimising peripheral {name}"
  | reduced name => s!"Device {name} is inconsistent after optimisation"
  | writing name => s!"Writing peripheral {name}"
  | rendering name => s!"Error rendering device {name}"

/-- A cause and the places around it, the outermost first. -/
structure Failure where
  places : List Place := []
  cause : Cause
  deriving DecidableEq, Repr

instance : Coe Cause Failure := ⟨fun cause => { cause }⟩

/-- The places and the cause in one line. -/
def Failure.message (f : Failure) : String :=
  ": ".intercalate (f.places.map Place.message ++ f.cause.message?.toList)

/-- The failure as it is seen from one place further out. -/
def Failure.within (p : Place) (f : Failure) : Failure := { f with places := p :: f.places }

/-- A result whose failure happened at the place. -/
def within (p : Place) : Except Failure α → Except Failure α := Except.mapError (Failure.within p)

@[simp] theorem within_ok (p : Place) (a : α) : within p (.ok a) = .ok a := rfl

@[simp] theorem within_error (p : Place) (f : Failure) :
    within p (.error f : Except Failure α) = .error (f.within p) := rfl

theorem within_eq_ok {p : Place} {r : Except Failure α} {a : α} :
    within p r = .ok a ↔ r = .ok a := by
  cases r <;> simp

/-- A step that fails for the cause. -/
def fail (c : Cause) : Except Failure α := .error c

end RegisterMap
