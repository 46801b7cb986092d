import RegisterMap.Description.Dialect
import RegisterMap.Element

/-!
# Registers as data

The records of fields, registers and clusters in structured documents. Each type has the names of
its record, the record of a value, and the value of a record.
-/

namespace RegisterMap

namespace Access

def toDatum (a : Access) : Datum := .text a.name

def ofDatum? (dl : Dialect) (d : Datum) : Option Access := (dl.name? d).bind ofName?

end Access

namespace Enumeration

def names : List String := ["name", "description", "value", "mask", "text"]

def toDatum (e : Enumeration) : Datum :=
  .ofFields <|
    [("name", .text e.name), ("description", .text e.description),
     ("value", .integer e.value), ("mask", .integer e.mask)] ++
    present "text" (e.text.map .text)

def ofDatum? (dl : Dialect) (d : Datum) : Option Enumeration := do
  let fs ← dl.fields? names d
  return {
    name := ← fs.required "name" Datum.text?
    description := ← fs.required "description" Datum.text?
    value := ← fs.required "value" (Datum.natural? 64)
    mask := ← fs.required "mask" (Datum.natural? 64)
    text := ← fs.optional "text" Datum.text? }

end Enumeration

namespace Field

def names : List String :=
  ["name", "description", "bit_offset", "bit_width", "access", "derived_from", "ignore_overlap",
   "enumerations"]

def toDatum (f : Field) : Datum :=
  .ofFields <|
    [("name", .text f.name), ("description", .text f.description),
     ("bit_offset", .integer f.bitOffset), ("bit_width", .integer f.bitWidth)] ++
    present "access" (f.access.map Access.toDatum) ++
    present "derived_from" (f.derivedFrom.map .text) ++
    [("ignore_overlap", .flag f.ignoreOverlap)] ++
    presentList "enumerations" (f.enumerations.map Enumeration.toDatum)

def ofDatum? (dl : Dialect) (d : Datum) : Option Field := do
  let fs ← dl.fields? names d
  return {
    name := ← fs.required "name" Datum.text?
    description := ← fs.required "description" Datum.text?
    bitOffset := ← fs.required "bit_offset" (Datum.natural? 32)
    bitWidth := ← fs.required "bit_width" (Datum.natural? 32)
    access := ← fs.optional "access" (Access.ofDatum? dl)
    derivedFrom := ← fs.optional "derived_from" Datum.text?
    ignoreOverlap := ← fs.withDefault "ignore_overlap" false Datum.flag?
    enumerations := ← fs.withDefault "enumerations" [] (Datum.listOf? (Enumeration.ofDatum? dl)) }

end Field

namespace Dim

def names : List String := ["increment", "indexes"]

def toDatum (d : Dim) : Datum :=
  .ofFields [("increment", .integer d.stride), ("indexes", .list (d.indexes.map .text))]

def ofDatum? (dl : Dialect) (d : Datum) : Option Dim := do
  let fs ← dl.fields? names d
  return {
    stride := ← fs.required "increment" (Datum.natural? 64)
    indexes := ← fs.required "indexes" (Datum.listOf? Datum.text?) }

end Dim

namespace Flags

def names : List String := ["isolated", "hidden", "keep_as_array", "do_derived_macros"]

def toDatum (f : Flags) : Datum :=
  .ofFields
    [("isolated", .flag f.isolated), ("hidden", .flag f.hidden),
     ("keep_as_array", .flag f.keepAsArray), ("do_derived_macros", .flag f.derivedMacros)]

def ofDatum? (dl : Dialect) (d : Datum) : Option Flags := do
  let fs ← dl.fields? names d
  return {
    isolated := ← fs.withDefault "isolated" false Datum.flag?
    hidden := ← fs.withDefault "hidden" false Datum.flag?
    keepAsArray := ← fs.withDefault "keep_as_array" false Datum.flag?
    derivedMacros := ← fs.withDefault "do_derived_macros" false Datum.flag? }

end Flags

namespace Register

def names : List String :=
  ["name", "description", "address_offset", "width", "access", "reset_value", "reset_mask", "dim",
   "derived_from", "flags", "fields"]

def toDatum (r : Register) : Datum :=
  .ofFields <|
    [("name", .text r.name), ("description", .text r.description),
     ("address_offset", .integer r.offset), ("width", .integer r.width),
     ("access", r.access.toDatum), ("reset_value", .integer r.resetValue),
     ("reset_mask", .integer r.resetMask)] ++
    present "dim" (r.dim.map Dim.toDatum) ++
    present "derived_from" (r.derivedFrom.map .text) ++
    [("flags", r.flags.toDatum)] ++
    presentList "fields" (r.fields.map Field.toDatum)

def ofDatum? (dl : Dialect) (d : Datum) : Option Register := do
  let fs ← dl.fields? names d
  return {
    name := ← fs.required "name" Datum.text?
    description := ← fs.required "description" Datum.text?
    offset := ← fs.required "address_offset" (Datum.natural? 64)
    width := ← fs.required "width" (Datum.natural? 32)
    access := ← fs.required "access" (Access.ofDatum? dl)
    resetValue := ← fs.required "reset_value" (Datum.natural? 64)
    resetMask := ← fs.required "reset_mask" (Datum.natural? 64)
    dim := ← fs.optional "dim" (Dim.ofDatum? dl)
    derivedFrom := ← fs.optional "derived_from" Datum.text?
    flags := ← fs.withDefault "flags" {} (Flags.ofDatum? dl)
    fields := ← fs.withDefault "fields" [] (Datum.listOf? (Field.ofDatum? dl)) }

end Register

namespace Cluster

def names : List String :=
  ["name", "description", "address_offset", "dim", "flags", "children"]

/-- The record of a cluster with its children. -/
def toDatum (c : Cluster) (children : List Datum) : Datum :=
  .ofFields <|
    [("name", .text c.name), ("description", .text c.description),
     ("address_offset", .integer c.offset)] ++
    present "dim" (c.dim.map Dim.toDatum) ++
    [("flags", c.flags.toDatum), ("children", .list children)]

/-- The cluster of a record and its children, by a reading of each child. -/
def ofDatum? (dl : Dialect) (child : Datum → Option Element) (d : Datum) :
    Option Element := do
  let fs ← dl.fields? names d
  let head : Cluster := {
    name := ← fs.required "name" Datum.text?
    description := ← fs.required "description" Datum.text?
    offset := ← fs.required "address_offset" (Datum.natural? 64)
    dim := ← fs.optional "dim" (Dim.ofDatum? dl)
    flags := ← fs.withDefault "flags" {} (Flags.ofDatum? dl) }
  return .cluster head (← fs.required "children" (Datum.listOf? child))

end Cluster

namespace Element

mutual

def toDatum (dl : Dialect) : Element → Datum
  | .register r => dl.variant "register" r.toDatum
  | .cluster c es => dl.variant "cluster" (c.toDatum (toData dl es))

def toData (dl : Dialect) : List Element → List Datum
  | [] => []
  | e :: es => e.toDatum dl :: toData dl es

end

/-- The element of a value, counting down its depth. -/
def readWithin (dl : Dialect) : Nat → Datum → Option Element
  | 0, _ => none
  | depth + 1, d =>
    match dl.variant? d with
    | some ("register", some v) => (Register.ofDatum? dl v).map .register
    | some ("cluster", some v) => Cluster.ofDatum? dl (readWithin dl depth) v
    | _ => none

def ofDatum? (dl : Dialect) (d : Datum) : Option Element := readWithin dl d.depth d

end Element

end RegisterMap
