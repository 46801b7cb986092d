import RegisterMap.Header.Member
import RegisterMap.Settings

/-!
# Parts of a header

What a header consists of: typedefs, macros, pointers to peripherals, and lines of plain text
between them. Each part has its lines; the text of a header is that of its parts.
-/

namespace RegisterMap

/-- The macros of a bit field: its mask, its position, and a placement of values in it. -/
structure FieldMacro where
  /-- The name without the suffixes. -/
  name : String
  /-- The register and field that the comments name. -/
  subject : String
  offset : Nat
  width : Nat
  registerType : WordType
  /-- The type of a value, for fields of more than one bit. -/
  valueType : Option WordType
  deriving DecidableEq, Repr

/-- A member on the way to a register, or one element of it. -/
structure Step where
  name : String
  index : Option Nat := none
  deriving DecidableEq, Repr

/-- A macro for a register by its path in the structure of a peripheral. -/
structure AccessMacro where
  name : String
  peripheral : String
  path : List Step
  deriving DecidableEq, Repr

/-- A part of a header. -/
inductive Part
  | plain (lines : List String)
  /-- The structure of a typedef, named without its suffix. -/
  | typedef (name : String) (members : List Member)
  | fieldMacro (m : FieldMacro)
  | accessMacro (m : AccessMacro)
  /-- The base address of a peripheral. -/
  | base (peripheral : String) (address : Nat)
  /-- The pointer to a peripheral as a structure of the typedef. -/
  | pointer (peripheral typedef : String)
  deriving Repr

namespace FieldMacro

/-- A definition with a comment behind it. -/
def line (definition comment : String) : String :=
  s!"{Text.padEnd 100 definition} /*!< {Text.padEnd 40 comment}*/"

/-- The name of the macro that tells the position. -/
def positionName (s : Settings) (m : FieldMacro) : String :=
  m.name ++ if s.shiftMaskNames then "_SHIFT" else "_Pos"

/-- The name of the macro that tells the mask. -/
def maskName (s : Settings) (m : FieldMacro) : String :=
  m.name ++ if s.shiftMaskNames then "_MASK" else "_Msk"

/-- The definition of the mask, as a number or as a shift of the low bits. -/
def maskValue (s : Settings) (m : FieldMacro) : String :=
  if s.numericMasks then s!"0x{Text.hex (Bits.runMask m.offset m.width)}UL"
  else s!"(0x{Text.hex (Bits.lowMask m.width) 2}UL << {m.positionName s})"

/-- The definition that places a value in the field. -/
def placement (s : Settings) (m : FieldMacro) (valueType : WordType) : String :=
  s!"(((({m.registerType.name})(({valueType.name})(x)))<<{m.positionName s})&{m.maskName s})"

/-- The macro of a value with its argument. -/
def placementName (m : FieldMacro) : String := m.name ++ "(x)"

def lines (s : Settings) (m : FieldMacro) : List String :=
  [line s!"#define {Text.padEnd 40 (m.maskName s)} {m.maskValue s}" s!"{m.subject} Mask",
   line s!"#define {Text.padEnd 40 (m.positionName s)} {m.offset}" s!"{m.subject} Position"] ++
  (m.valueType.map fun t =>
    line s!"#define {Text.padEnd 40 m.placementName} {m.placement s t}"
      s!"{m.subject} Field").toList

end FieldMacro

namespace AccessMacro

/-- The members of the path with dots between them. -/
def pathText (path : List Step) : String :=
  ".".intercalate (path.map fun step => Member.declarator step.name step.index)

def line (m : AccessMacro) : String :=
  s!"#define {Text.padEnd 30 m.name} ({m.peripheral}->{pathText m.path})"

end AccessMacro

namespace Part

/-- The name of the macro for the base address of a peripheral. -/
def baseName (peripheral : String) : String := peripheral ++ "_BASE_PTR"

/-- The type that a pointer of the typedef points to. -/
def pointee (typedef : String) : String := s!"volatile {typedef}_Type"

/-- The lines of a part. -/
def lines (s : Settings) : Part → List String
  | plain ls => ls
  | typedef name members =>
    s!"typedef struct {name}_Type \x7b" :: Member.linesOf 3 members ++ [s!"\x7d {name}_Type;", ""]
  | fieldMacro m => m.lines s
  | accessMacro m => [m.line]
  | base p address => [s!"#define {Text.padEnd 30 (baseName p)} 0x{Text.hex address 8}UL"]
  | pointer p t =>
    [s!"#define {Text.padEnd 30 p} (({Text.padEnd 20 (pointee t)} *) {baseName p})"]

/-- The text of parts, each of their lines ended. -/
def text (s : Settings) (parts : List Part) : String :=
  String.join ((parts.flatMap (lines s)).map (· ++ "\n"))

end Part

/-! ## Frames -/

namespace Frame

/-- The line between sections. -/
def rule : String :=
  "/* ================================================================================ */"

/-- The title of a section. -/
def title (t : String) : List String :=
  [rule, s!"/* ================{Text.padBoth 48 t}================ */", rule, ""]

/-- The comment that opens a documentation group. -/
def openGroup (group title brief : String) : List String :=
  ["/**", s!"* @addtogroup {group}_GROUP {title}", s!"* @brief {brief}", "* @\x7b", "*/"]

/-- The comment that closes a documentation group. -/
def closeGroup (group : String) : List String :=
  ["/**", s!" * @\x7d */ /* End group {group}_GROUP ", " */"]

/-- A dashed line in a comment. -/
def dashes : String := "/* " ++ .ofList (List.replicate 80 '-') ++ " */"

/-- The title of the macros of a peripheral. -/
def banner (t : String) : List String :=
  ["", dashes, s!"/* -----------     {Text.padEnd 50 t}   ----------- */", dashes, ""]

end Frame

end RegisterMap
