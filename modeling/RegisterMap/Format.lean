import RegisterMap.Text.Edit

/-!
# Description formats

The formats a device description is read from and written in, and the file names that carry them.
-/

namespace RegisterMap

/-- A format of device descriptions. -/
inductive Format
  | xml
  | yaml
  | json
  deriving DecidableEq, Repr, Inhabited

namespace Format

/-- The name by which settings choose the format. -/
def name : Format → String
  | xml => "xml"
  | yaml => "yaml"
  | json => "json"

/-- The name of the format in messages. -/
def title : Format → String
  | xml => "XML"
  | yaml => "YAML"
  | json => "JSON"

def all : List Format := [xml, yaml, json]

theorem mem_all (f : Format) : f ∈ all := by cases f <;> simp [all]

/-- The format of a name. -/
def ofName? (s : String) : Option Format := all.find? fun f => f.name == s

theorem ofName?_name (f : Format) : ofName? f.name = some f := by cases f <;> decide

/-- The file extension given to a description in the format. -/
def extension : Format → String
  | xml => "svd"
  | yaml => "yaml"
  | json => "json"

/-- The format that a file extension stands for. -/
def ofExtension? (s : String) : Option Format :=
  if s == "svd" || s == "xml" then some xml
  else if s == "yml" || s == "yaml" then some yaml
  else if s == "json" then some json
  else none

theorem ofExtension?_extension (f : Format) : ofExtension? f.extension = some f := by
  cases f <;> decide

/-- The last part of a path that names a file, without separators. -/
def fileName? (path : List Char) : Option (List Char) :=
  match ((Text.parts '/' path).filter fun p => p ≠ [] && p ≠ ['.']).getLast? with
  | some p => if p = ['.', '.'] then none else some p
  | none => none

/-- What follows the last dot of a file name; a dot at the start begins no extension. -/
def extensionOf? (file : List Char) : Option (List Char) :=
  let ending := file.reverse.takeWhile (· != '.')
  if ending.length + 1 < file.length then some ending.reverse else none

/-- The format of a file by its name, XML when the name does not tell. -/
def ofPath (path : String) : Format :=
  ((fileName? path.toList).bind extensionOf?).bind (fun e => ofExtension? (.ofList e)) |>.getD xml

end Format

end RegisterMap
