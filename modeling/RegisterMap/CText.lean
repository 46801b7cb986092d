import RegisterMap.Failure
import RegisterMap.Text.Case

/-!
# C texts

Names, comments and word types of the C header, made from the texts of a description.
-/

namespace RegisterMap.CText

/-- Characters that vendors use in names and that an identifier cannot hold. -/
def isForeign (c : Char) : Bool := ['(', ')', '[', ']', '/', ' ', '-', '.'].contains c

def keywords : List String :=
  ["auto", "break", "case", "char", "const", "continue", "default", "do", "double", "else",
   "enum", "extern", "float", "for", "goto", "if", "inline", "int", "long", "register",
   "restrict", "return", "short", "signed", "sizeof", "static", "struct", "switch", "typedef",
   "union", "unsigned", "void", "volatile", "while"]

/-- The identifier of a name: foreign characters become underscores, and one more keeps it apart
from numbers and keywords. -/
def identifier (name : String) : String :=
  let cs := name.toList.map fun c => if isForeign c then '_' else c
  if cs.head?.any Char.isDigit then .ofList ('_' :: cs)
  else if keywords.contains (.ofList cs) then .ofList (cs ++ ['_'])
  else .ofList cs

/-- The macro that guards the header of a device. -/
def includeGuard (device : String) : String := "MCU_" ++ Text.upper (identifier device)

/-- The first line of a text in a form that cannot close a comment. -/
def comment (s : String) : String :=
  Text.replaceAll "*/" "* /" (Text.respaced (Text.firstLine s))

end RegisterMap.CText

namespace RegisterMap

/-- An unsigned integer type of C. -/
inductive WordType
  | word8
  | word16
  | word32
  | word64
  deriving DecidableEq, Repr, Inhabited

namespace WordType

def name : WordType → String
  | word8 => "uint8_t"
  | word16 => "uint16_t"
  | word32 => "uint32_t"
  | word64 => "uint64_t"

def bytes : WordType → Nat
  | word8 => 1
  | word16 => 2
  | word32 => 4
  | word64 => 8

/-- The smallest type that holds so many bits. -/
def ofWidth (width : Nat) : Except Failure WordType :=
  if width = 0 then fail (.noWordType width)
  else if width ≤ 8 then .ok word8
  else if width ≤ 16 then .ok word16
  else if width ≤ 32 then .ok word32
  else if width ≤ 64 then .ok word64
  else fail (.noWordType width)

theorem width_le_of_ofWidth {width : Nat} {t : WordType} (h : ofWidth width = .ok t) :
    width ≤ 8 * t.bytes := by
  unfold ofWidth fail at h
  repeat' split at h
  all_goals cases h
  all_goals simp only [bytes]; omega

end WordType

end RegisterMap
