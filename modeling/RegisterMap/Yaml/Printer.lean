import RegisterMap.Yaml.Scalar

/-!
# YAML texts

The written form of data, one entry or item to a line. A list stands in the column of its key, a
record two columns further in.
-/

namespace RegisterMap.Yaml

/-- The characters of lines, each line two columns further in, the first one only if it begins with
them. Empty lines stay empty. -/
def shift : (begins : Bool) → List Char → List Char
  | _, [] => []
  | begins, c :: cs =>
    if isBreak c then c :: shift true cs
    else if begins then ' ' :: ' ' :: c :: shift false cs
    else c :: shift false cs

/-- The written form of a value after its key or dash: what begins on the same line, nothing for
lists and records, and the lines below, each with its end. -/
structure Hanging where
  first : String
  below : String := ""
  /-- The lines below are items of a list. -/
  isList : Bool := false
  deriving Repr

namespace Hanging

/-- Lines two columns further in. -/
def indent (s : String) : String := .ofList (shift true s.toList)

/-- Lines two columns further in, but for the first one, which has begun before. -/
def indentRest (s : String) : String := .ofList (shift false s.toList)

/-- The lines of an entry with the key. -/
def underKey (key : String) (h : Hanging) : String :=
  key ++ ":" ++ (if h.first.isEmpty then "" else " " ++ indentRest h.first) ++ "\n" ++
    if h.isList then h.below else indent h.below

/-- The lines of an item. -/
def underDash (h : Hanging) : String :=
  if h.first.isEmpty then "- " ++ indentRest h.below
  else "- " ++ indentRest h.first ++ "\n" ++ indent h.below

/-- The value under a tag. Only kinds need one. -/
def underTag (tag : Tag) (h : Hanging) : Hanging :=
  match tag with
  | .kind k => { h with first := "!" ++ k ++ if h.first.isEmpty then "" else " " ++ h.first }
  | _ => h

/-- The text of a scalar. -/
def ofScalar (s : String) : Hanging := ⟨(write s).1, (write s).2, false⟩

end Hanging

/-- The key of an entry. -/
def keyText : Datum → String
  | .integer n => toString n
  | d => (write (d.text?.getD "")).1

mutual

/-- The written form of a value. -/
def hang : Datum → Hanging
  | .null => ⟨"null", "", false⟩
  | .flag b => ⟨if b then "true" else "false", "", false⟩
  | .integer n => ⟨toString n, "", false⟩
  | .fraction t => ⟨t, "", false⟩
  | .text s => .ofScalar s
  | .escaped s => .ofScalar s
  | .garbled => ⟨"null", "", false⟩
  | .bare s => ⟨s, "", false⟩
  | .literal s => .ofScalar s
  | .list [] => ⟨"[]", "", false⟩
  | .list (d :: ds) => ⟨"", itemLines (d :: ds), true⟩
  | .record [] => ⟨"\x7b\x7d", "", false⟩
  | .record (e :: es) => ⟨"", entryLines (e :: es), false⟩
  | .tagged tag d => (hang d).underTag tag

/-- The lines of items. -/
def itemLines : List Datum → String
  | [] => ""
  | d :: ds => (hang d).underDash ++ itemLines ds

/-- The lines of entries. -/
def entryLines : List (Datum × Datum) → String
  | [] => ""
  | (k, d) :: es => (hang d).underKey (keyText k) ++ entryLines es

end

/-- The text of a value. -/
def print (d : Datum) : String :=
  let h := hang d
  if h.first.isEmpty then h.below
  else Hanging.indentRest h.first ++ "\n" ++ Hanging.indent h.below

end RegisterMap.Yaml
