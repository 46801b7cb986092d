import RegisterMap.Device
import RegisterMap.Header.MacroNames
import RegisterMap.Header.Part

/-!
# Register macros

The macros by which a program names the registers of a peripheral without its structure.
-/

namespace RegisterMap.AccessMacro

/-- A name for a register, and the last step to it. -/
abbrev Accessor := String × Step

/-- The names of a register, one for each element of an array. -/
def ofRegister (r : Register) : List Accessor :=
  match r.dim with
  | none => [(r.name, ⟨r.name, none⟩)]
  | some d =>
    if r.isDeclaredAsArray then
      (List.range d.count).map fun i =>
        (Member.elementName (Text.replaceAll "[%s]" "%s" r.name) (some d) i, ⟨r.baseName, some i⟩)
    else
      (List.range d.count).map fun i =>
        let name := Member.elementName r.name (some d) i
        (name, ⟨name, none⟩)

/-- The name of a macro, as it is common among peripherals if the settings ask for that. -/
def nameOf (s : Settings) (name : String) : String :=
  if s.commonNames then MacroNames.accessor name else name

/-- The elements of a cluster by index text and step. -/
def instances (c : Cluster) : List (String × Step) :=
  match c.dim with
  | some d => (List.range d.count).map fun i => (d.indexText i, ⟨c.baseName, some i⟩)
  | none => [("", ⟨c.baseName, none⟩)]

/-- A macro format with the names of peripheral, array, index and member filled in. -/
def fillFormat (format peripheral array index member : String) : String :=
  Text.replaceAll "@f" member <| Text.replaceAll "@i" index <|
    Text.replaceAll "@a" array <| Text.replaceAll "@p" (peripheral ++ "_") format

/-- The register of an element that is one and not hidden. -/
def visible? : Element → Option Register
  | .register r => if r.flags.hidden then none else some r
  | .cluster _ _ => none

/-- The macros of a cluster: one for the whole, or, with a macro format, one for each register in
each of its elements. -/
def ofCluster (s : Settings) (peripheral : String) (c : Cluster) (es : List Element) :
    List AccessMacro :=
  match c.macroFormat? with
  | none => [⟨s!"{peripheral}_{c.baseName}", peripheral, [⟨c.baseName, none⟩]⟩]
  | some format =>
    (instances c).flatMap fun (index, step) =>
      (((Element.sortLevel es).filterMap visible?).flatMap ofRegister).filterMap
        fun (member, last) =>
          let name := nameOf s (fillFormat format peripheral c.baseName index member)
          if name.isEmpty then none else some ⟨name, peripheral, [step, last]⟩

/-- The macros of an element of a peripheral. -/
def ofElement (s : Settings) (peripheral : String) (e : Element) : List AccessMacro :=
  if e.flags.hidden then []
  else
    match e with
    | .register r =>
      (ofRegister r).map fun (name, step) =>
        ⟨nameOf s s!"{peripheral}_{name}", peripheral, [step]⟩
    | .cluster c es => ofCluster s peripheral c es

/-- The macros for the registers of a peripheral, which another one may own. -/
def ofPeripheral (s : Settings) (p owner : Peripheral) : List Part :=
  .plain (Frame.banner s!"'{p.name}' Register Access macros") ::
    ((Element.sortLevel owner.registers).flatMap (ofElement s p.name)).map .accessMacro

end RegisterMap.AccessMacro
