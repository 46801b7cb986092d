import RegisterMap.Datum.Json

/-!
# Dialects

How structured documents write the things on which JSON and YAML differ: records, the choice
between kinds of values, and numbers as keys.
-/

namespace RegisterMap

/-- The conventions of one structured format. -/
structure Dialect where
  /-- A list stands for a record with its items in the order of the names. -/
  positional : Bool
  /-- A value of a kind. -/
  variant : String → Datum → Datum
  /-- The kind of a value and the value, which is missing for a kind that needs none. -/
  variant? : Datum → Option (String × Option Datum)
  /-- A number as a key. -/
  key : Int → Datum
  /-- The number of a key, which has 32 bits. -/
  key? : Datum → Option Int

namespace Dialect

/-- A kind is the key of an object with one entry, and numbers as keys are quoted. They may not be
written with escapes. -/
def json : Dialect where
  positional := true
  variant kind d := .ofFields [(kind, d)]
  variant? d :=
    match d with
    | .record [(k, v)] => k.text?.map (·, some v)
    | d => d.text?.map (·, none)
  key n := .text (toString n)
  key? d :=
    match d with
    | .text s => (Json.integerText? s).bind fun n => Datum.signed? 32 (.integer n)
    | _ => none

/-- A kind is a tag, and keys are scalars as any other. -/
def yaml : Dialect where
  positional := false
  variant kind d := .tagged (.kind kind) d
  variant? d :=
    match d with
    | .tagged (.kind kind) v => some (kind, some v)
    | d => d.text?.map (·, none)
  key := .integer
  key? := Datum.signed? 32

/-- The values of a record under the names that it may have. -/
def fields? (dl : Dialect) (names : List String) : Datum → Option Fields
  | .list items =>
    if dl.positional && items.length ≤ names.length then some (names.zip items) else none
  | d => d.fields? names

/-- The name of a kind that needs no value. -/
def name? (dl : Dialect) (d : Datum) : Option String :=
  match dl.variant? d with
  | some (kind, none) => some kind
  | some (kind, some v) => if v.isAbsent then some kind else none
  | none => none

end Dialect

/-- The entries of a record that are written only when there is something to write. -/
def present (name : String) (v : Option Datum) : List (String × Datum) := (v.map (name, ·)).toList

/-- The entry of a list that is written only when it has items. -/
def presentList (name : String) (items : List Datum) : List (String × Datum) :=
  if items.isEmpty then [] else [(name, .list items)]

end RegisterMap
