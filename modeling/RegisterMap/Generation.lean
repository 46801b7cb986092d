import RegisterMap.Datum.Json
import RegisterMap.Description.Devices
import RegisterMap.Header
import RegisterMap.Reduction
import RegisterMap.Svd.Device
import RegisterMap.Yaml.Printer
import RegisterMap.Yaml.Reader

/-!
# Generation

Devices from descriptions in any format and back, and the run as a whole: a description is read,
reduced, and turned into a header, and perhaps written again. Main definitions: `Device.load`,
`Device.describe` and `generate`.
-/

namespace RegisterMap

namespace Device

/-- The device of a value that was read, unless the text or the value is malformed. -/
def ofData (f : Format) (dl : Dialect) (read : Option Datum) : Outcome Device :=
  let blank : Device := { name := "" }
  match read.bind (ofDatum? dl) with
  | some d => .pure d
  | none => { state := blank, failure := some (Cause.malformed f) }

/-- The device of a text in the format, not yet checked. -/
def read (f : Format) (commonNames : Bool) (text : String) : Outcome Device :=
  match f with
  | .xml => readSvd commonNames text
  | .yaml => ofData .yaml .yaml (Yaml.read? isKey text)
  | .json => ofData .json .json (Json.read? text)

/-- The valid device of a text, in the format that the settings name. -/
def load (s : Settings) (text : String) : Outcome Device :=
  ((read s.sourceFormat s.commonNames text).within (.reading s.sourceFormat)).andThen fun d =>
    .check d (within (.loading d.name) d.validate)

/-- The text of a device in the format. -/
def describe (f : Format) (d : Device) : String :=
  match f with
  | .xml => d.svdText
  | .yaml => Yaml.print (d.toDatum .yaml)
  | .json => Json.pretty (d.toDatum .json)

end Device

/-- What a run makes of a description. -/
structure Generation where
  header : String
  /-- The reduced description, if the settings ask for it. -/
  description : Option String
  deriving DecidableEq, Repr

namespace Generation

/-- The header of a reduced device, and its description. -/
def ofDevice (s : Settings) (d : Device) : Except Failure Generation := do
  let header ← within (.rendering d.name) (Header.render s d)
  return { header, description := s.descriptionFormat.map fun f => d.describe f }

/-- The device of a text in its shortest form. -/
def prepare (s : Settings) (text : String) : Outcome Device :=
  (Device.load s text).andThen (Device.reduce s)

end Generation

/-- The header of the device that a text describes, and what was warned of on the way. -/
def generate (s : Settings) (text : String) : List Warning × Except Failure Generation :=
  let prepared := Generation.prepare s text
  (prepared.warnings, prepared.toExcept.bind (Generation.ofDevice s))

end RegisterMap
