import RegisterMap.Datum
import RegisterMap.Yaml.Glyph

/-!
# Anchors, tags and directives

What may stand in front of a value: an anchor by which others refer to it, and a tag. A tag is a
handle, whose meaning a directive may give, and a suffix, in which octets may be escaped; it is
read as the octets it spells.
-/

namespace RegisterMap.Yaml

/-- The octets of a part of a tag. -/
abbrev Octets := List UInt8

namespace Octets

def ofChars (cs : List Char) : Octets := cs.map fun c => c.toNat.toUInt8

def ofString (s : String) : Octets := ofChars s.toList

/-- The octets up to a null octet, which ends a tag. -/
def untilNull (os : Octets) : Octets := os.takeWhile (· != 0)

/-- The text that the octets spell, if they do. -/
def text? (os : Octets) : Option String := String.fromUTF8? ⟨os.toArray⟩

end Octets

/-- The name behind the sign of an anchor or a reference. It ends at a gap or at a sign. -/
def anchorName? (gs : List Glyph) : Option (String × List Glyph) :=
  let (n, rest) := name gs
  if !n.isEmpty && (atGap rest || at? (fun c => "?:,]%@\x7d\x60".toList.contains c) rest) then
    some (.ofList n, rest)
  else none

/-! ## Tags -/

/-- How many octets follow the first octet of a character. -/
def octetsBehind? (o : UInt8) : Option Nat :=
  if o &&& 0x80 == 0 then some 0
  else if o &&& 0xE0 == 0xC0 then some 1
  else if o &&& 0xF0 == 0xE0 then some 2
  else if o &&& 0xF8 == 0xF0 then some 3
  else none

/-- How many octets are to come after an octet, when so many were to come with it. -/
def octetsLeft? (awaited : Nat) (o : UInt8) : Option Nat :=
  match awaited with
  | 0 => octetsBehind? o
  | n + 1 => if o &&& 0xC0 == 0x80 then some n else none

/-- The octet of two hexadecimal digits. -/
def octet? (a b : Char) : Option UInt8 := do
  return (16 * (← Text.digitValue? 16 a) + (← Text.digitValue? 16 b)).toUInt8

/-- Reads the suffix of a tag. All octets of a character are escaped or none; commas and brackets
belong to a tag only between angles. -/
def suffix? (inAngles : Bool) (awaited : Nat) : List Glyph → Option (Octets × List Glyph)
  | [] => none
  | g :: gs =>
    if g.char == '%' then
      match gs with
      | a :: b :: gs =>
        match octet? a.char b.char with
        | some o =>
          match octetsLeft? awaited o with
          | some n => (suffix? inAngles n gs).map fun (os, rest) => (o :: os, rest)
          | none => none
        | none => none
      | _ => none
    else if awaited != 0 then none
    else if isNameChar g.char || isTagSign g.char ||
        (inAngles && [',', '[', ']'].contains g.char) then
      (suffix? inAngles 0 gs).map fun (os, rest) => (g.char.toNat.toUInt8 :: os, rest)
    else some ([], g :: gs)

/-- Reads a suffix that may not be empty. -/
def nonemptySuffix? (inAngles : Bool) (gs : List Glyph) : Option (Octets × List Glyph) := do
  let (os, rest) ← suffix? inAngles 0 gs
  guard !os.isEmpty
  return (os.untilNull, rest)

/-- A tag as it is written. -/
structure Shorthand where
  /-- The handle, empty for a tag that needs no other meaning. -/
  handle : String
  suffix : Octets
  deriving DecidableEq, Repr, Inhabited

/-- A tag without a handle: all its octets stand between angles. -/
def angledTag? (gs : List Glyph) : Option (Shorthand × List Glyph) := do
  let (os, rest) ← nonemptySuffix? true gs
  guard (at? (· == '>') rest)
  return (⟨"", os⟩, rest.drop 1)

/-- A tag with a handle. Of a single mark alone nothing is the suffix. -/
def handledTag? (gs : List Glyph) : Option (Shorthand × List Glyph) := do
  let (n, rest) := name gs
  if at? (· == '!') rest then
    let (os, rest) ← nonemptySuffix? false (rest.drop 1)
    return (⟨.ofList ('!' :: n ++ ['!']), os⟩, rest)
  else
    let (os, rest) ← suffix? false 0 rest
    let os := Octets.untilNull (Octets.ofChars n ++ os)
    return (if os.isEmpty then ⟨"", Octets.ofString "!"⟩ else ⟨"!", os⟩, rest)

/-- Reads a tag behind its mark. It ends at a gap, or between brackets at a comma. -/
def tag? (inBrackets : Bool) (gs : List Glyph) : Option (Shorthand × List Glyph) := do
  let (t, rest) ← if at? (· == '<') gs then angledTag? (gs.drop 1) else handledTag? gs
  guard (atGap rest || (inBrackets && at? (· == ',') rest))
  return (t, rest)

/-- The meanings of handles, those of the document first. -/
abbrev Handles := List (String × Octets)

/-- The handles that need no directive. -/
def Handles.usual : Handles :=
  [("!", Octets.ofString "!"), ("!!", Octets.ofString "tag:yaml.org,2002:")]

/-- The whole tag, if its handle has a meaning. -/
def Shorthand.octets? (handles : Handles) (t : Shorthand) : Option Octets :=
  if t.handle.isEmpty then some t.suffix
  else (handles.lookup t.handle).map (· ++ t.suffix)

/-- What the octets of a tag say. -/
def tagOf (os : Octets) : Tag :=
  match os with
  | 0x21 :: rest =>
    match Octets.text? rest with
    | some kind => .kind kind
    | none => .other
  | os =>
    (([("null", .null), ("int", .integer), ("bool", .flag)] : List (String × Tag)).find?
      fun (word, _) => os == Octets.ofString ("tag:yaml.org,2002:" ++ word)).elim .other (·.2)

/-! ## Directives -/

/-- A line in front of a document. -/
inductive Directive
  | version (major minor : Nat)
  | handle (name : String) (meaning : Octets)
  deriving DecidableEq, Repr, Inhabited

namespace Directive

/-- A number of at most nine digits. -/
def number? (gs : List Glyph) : Option (Nat × List Glyph) :=
  let ds := gs.takeWhile fun g => g.char.isDigit
  if ds.isEmpty || 9 < ds.length then none
  else some (ds.foldl (fun n g => 10 * n + (g.char.toNat - 48)) 0, gs.drop ds.length)

/-- The numbers of a version. -/
def version? (gs : List Glyph) : Option (Directive × List Glyph) := do
  let (major, rest) ← number? gs
  guard (at? (· == '.') rest)
  let (minor, rest) ← number? (rest.drop 1)
  return (.version major minor, rest)

/-- A handle and its meaning. -/
def handle? (gs : List Glyph) : Option (Directive × List Glyph) := do
  guard (at? (· == '!') gs)
  let (n, rest) := name (gs.drop 1)
  let isClosed := at? (· == '!') rest
  guard (isClosed || n.isEmpty)
  let handle := '!' :: n ++ if isClosed then ['!'] else []
  let rest := if isClosed then rest.drop 1 else rest
  guard (rest.head?.any Glyph.isBlank)
  let (os, rest) ← nonemptySuffix? true (skipBlanks rest)
  guard (atGap rest)
  return (.handle (.ofList handle) os, rest)

/-- Reads a directive behind its mark, up to the next line. -/
def ofGlyphs? (gs : List Glyph) : Option (Directive × List Glyph) := do
  let (n, rest) := name gs
  guard (atGap rest)
  let (d, rest) ←
    match String.ofList n with
    | "YAML" => version? (skipBlanks rest)
    | "TAG" => handle? (skipBlanks rest)
    | _ => none
  return (d, ← nextLine? rest)

/-- The meanings of handles after directives. There is one version at most, and it is 1.1 or 1.2;
no handle is given two meanings. -/
def handles? (ds : List Directive) : Option Handles := do
  let versions := ds.filterMap fun
    | version major minor => some (major, minor)
    | handle _ _ => none
  let handles := ds.filterMap fun
    | version _ _ => none
    | handle name meaning => some (name, meaning)
  guard (versions.length ≤ 1)
  guard (versions.all fun (major, minor) => major == 1 && (minor == 1 || minor == 2))
  guard (handles.map Prod.fst).Nodup
  return handles ++ Handles.usual

end Directive

end RegisterMap.Yaml
