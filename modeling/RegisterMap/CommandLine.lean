import RegisterMap.CText
import RegisterMap.Settings

/-!
# Command line

The settings that arguments ask for, and the names of the files that a run writes.
-/

namespace RegisterMap

namespace CommandLine

/-- What is wrong with arguments. -/
inductive Complaint
  | unknownOption (text : String)
  | missingValue (option : String)
  | unknownFormat (text : String)
  | noInput
  deriving DecidableEq, Repr

def Complaint.message : Complaint → String
  | unknownOption text => s!"Unknown option '{text}'"
  | missingValue option => s!"Option '{option}' needs a value"
  | unknownFormat text => s!"Unknown format '{text}'"
  | noInput => "No input given, use -i FILE"

/-- The settings with a choice that takes no value, if the option is one. -/
def flag? (s : Settings) (option : String) : Option Settings :=
  match option with
  | "--numeric-field-masks" => some { s with numericMasks := true }
  | "--generate-register-macros" => some { s with registerMacros := true }
  | "--use-byte-padding" => some { s with bytePadding := true }
  | "--fold-registers" => some { s with foldRegisters := true }
  | "--extract-similar-fields" => some { s with shareEnumerations := true }
  | "--ignore-reset-values-in-equivalence" => some { s with ignoreReset := true }
  | "--ignore-access-type-in-equivalence" => some { s with ignoreAccess := true }
  | _ => none

/-- The format of a name. -/
def format (name : String) : Except Complaint Format :=
  match Format.ofName? name with
  | some f => .ok f
  | none => .error (.unknownFormat name)

/-- The settings with a value for an option. -/
def withValue (s : Settings) (option value : String) : Except Complaint Settings :=
  match option with
  | "-i" => .ok { s with input := some value }
  | "-o" => .ok { s with outputDir := some value }
  | "--output-dir" => .ok { s with outputDir := some value }
  | "--source-type" => do return { s with sourceFormat := ← format value }
  | "--description-format" => do return { s with descriptionFormat := some (← format value) }
  | _ => .error (.unknownOption option)

/-- The settings after arguments. -/
def read (s : Settings) : List String → Except Complaint Settings
  | [] => .ok s
  | option :: rest =>
    match flag? s option with
    | some s => read s rest
    | none =>
      match rest with
      | [] => .error (.missingValue option)
      | value :: rest => do read (← withValue s option value) rest

/-- The settings of a run and its input. A format that is not chosen goes by the input's name. -/
def run (args : List String) : Except Complaint (String × Settings) := do
  let s ← read {} args
  match s.input with
  | none => .error .noInput
  | some path =>
    if s.sourceFormat = .xml then return (path, { s with sourceFormat := .ofPath path })
    else return (path, s)

/-- The name of a file without directory and extension, as an identifier. -/
def stem (path : String) : String :=
  let file := (Format.fileName? path.toList).getD []
  match Format.extensionOf? file with
  | some ending => CText.identifier (.ofList (file.take (file.length - ending.length - 1)))
  | none => CText.identifier (.ofList file)

/-- The path of a file that the run writes. -/
def outputPath (s : Settings) (path extension : String) : String :=
  s.outputDir.getD "." ++ "/" ++ stem path ++ "." ++ extension

end CommandLine

end RegisterMap
