import RegisterMap.Device
import RegisterMap.Header.MacroNames
import RegisterMap.Header.Part

/-!
# Field macros

The position and mask macros of the fields of a peripheral. A name is defined once in a header;
where it comes again it must stand for the same bits.
-/

namespace RegisterMap

/-- The bits that each defined name stands for: offset and width. -/
abbrev DefinedMacros := List (String × Nat × Nat)

namespace FieldMacro

/-- The name of the macros of a field without suffix. -/
def nameOf (s : Settings) (p : Peripheral) (r : Register) (f : Field) : String :=
  let name := s!"{p.name}_{r.baseName}_{f.baseName}"
  if s.commonNames then MacroNames.field name else name

/-- Whether a name has to be defined for a field, or stands for its bits already. -/
def claim (defined : DefinedMacros) (name : String) (f : Field) : Except Failure Bool :=
  match defined.lookup name with
  | none => .ok true
  | some bits => if bits = (f.bitOffset, f.bitWidth) then .ok false else fail (.macroRedefined name)

/-- The macros of a field. -/
def ofField (name : String) (p : Peripheral) (r : Register) (type : WordType) (f : Field) :
    Except Failure FieldMacro := do
  let valueType ←
    if 1 < f.bitWidth then (WordType.ofWidth f.bitWidth).map some else pure none
  return {
    name
    subject := s!"{p.name}_{r.baseName}: {f.baseName}"
    offset := f.bitOffset
    width := f.bitWidth
    registerType := type
    valueType }

/-- The macros of fields that are not defined yet. -/
def ofFields (s : Settings) (p : Peripheral) (r : Register) (type : WordType) :
    DefinedMacros → List Field → Except Failure (List Part × DefinedMacros)
  | defined, [] => .ok ([], defined)
  | defined, f :: fs => do
    let name := nameOf s p r f
    if ← claim defined name f then
      let m ← ofField name p r type f
      let (parts, defined) ← ofFields s p r type ((name, f.bitOffset, f.bitWidth) :: defined) fs
      return (.fieldMacro m :: parts, defined)
    else ofFields s p r type defined fs

/-- The register has field macros: it is not hidden, and not derived unless it asks for them. -/
def isDescribed (r : Register) : Bool :=
  !r.flags.hidden && (r.derivedFrom.isNone || r.flags.derivedMacros)

/-- The fields in the order of their bits. -/
def inOrder (fs : List Field) : List Field :=
  fs.mergeSort fun a b =>
    ((compare a.bitOffset b.bitOffset).then (compare a.bitWidth b.bitWidth)).isLE

/-- The comment that names a register. -/
def heading (r : Register) : String :=
  let title := r.baseName ++ " Bit Fields"
  s!"/* ------- {Text.padEnd 40 title} ------ */"

/-- The macros of a register under a comment that names it. -/
def ofRegister (s : Settings) (p : Peripheral) (defined : DefinedMacros) (r : Register) :
    Except Failure (List Part × DefinedMacros) :=
  if !isDescribed r then .ok ([], defined)
  else do
    let fields ← p.fieldsOf r
    if fields.isEmpty then return ([], defined)
    let type ← WordType.ofWidth r.width
    let (parts, defined) ← ofFields s p r type defined (inOrder fields)
    return (.plain [heading r] :: parts, defined)

/-- The macros of registers one after another. -/
def ofRegisters (s : Settings) (p : Peripheral) :
    DefinedMacros → List Register → Except Failure (List Part × DefinedMacros)
  | defined, [] => .ok ([], defined)
  | defined, r :: rs => do
    let (parts, defined) ← within (.register s!"{p.name}.{r.name}") (ofRegister s p defined r)
    let (rest, defined) ← ofRegisters s p defined rs
    return (parts ++ rest, defined)

/-- The macros of a peripheral with the frame around them. -/
def ofPeripheral (s : Settings) (p : Peripheral) (defined : DefinedMacros) :
    Except Failure (List Part × DefinedMacros) := do
  let group := p.ownGroupName
  let (parts, defined) ←
    ofRegisters s p defined (Element.registersAll (Element.sortAll p.registers))
  let first :=
    Frame.banner s!"'{p.name}' Position & Mask macros" ++
      Frame.openGroup s!"{group}_Register_Masks" s!"{group} Register Masks"
        s!"Register Masks for {group}"
  let last := Frame.closeGroup s!"{group}_Register_Masks"
  return (.plain first :: parts ++ [.plain last], defined)

end FieldMacro

end RegisterMap
