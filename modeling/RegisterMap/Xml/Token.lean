import RegisterMap.Xml.Node

/-!
# XML tokens

The tags, texts and other parts of a document in the order in which they stand. Each part says by
its first characters what it is, and the next one starts where it ends.
-/

namespace RegisterMap.Xml

/-- A part of the text of a document. -/
inductive Token
  /-- The opening tag of an element, which may close it at once. -/
  | opening (name : Name) (attributes : List Attribute) (closed : Bool)
  | closing (name : Name)
  /-- Character data, as it is written. -/
  | characters (s : List Char)
  /-- A section whose characters stand for themselves. -/
  | section (s : List Char)
  | instruction (target : String) (value : Option String)
  | comment
  deriving DecidableEq, Repr

namespace Token

/-- The text before a mark and the text after it. -/
def upTo? (mark : List Char) : List Char → Option (List Char × List Char)
  | [] => none
  | c :: cs =>
    if mark.isPrefixOf (c :: cs) then some ([], (c :: cs).drop mark.length)
    else (upTo? mark cs).map fun (before, after) => (c :: before, after)

/-- The text from the first character on that is no white space. -/
def skip (s : List Char) : List Char := s.dropWhile isSpace

/-- A word of which a name consists starts as a name has to. -/
def isWord (w : List Char) : Bool := w.head?.any startsName

/-- Reads a name with at most one colon in it. -/
def name? (s : List Char) : Option (Name × List Char) :=
  let (word, rest) := s.span inName
  match Text.parts ':' word with
  | [base] => if isWord base then some (⟨"", .ofList base⟩, rest) else none
  | [qualifier, base] =>
    if isWord base && (qualifier.isEmpty || isWord qualifier) then
      some (⟨.ofList qualifier, .ofList base⟩, rest)
    else none
  | _ => none

/-- Reads a name, an equals sign and a value between quotes, which is left as it is written. -/
def assignment? (s : List Char) : Option (Name × List Char × List Char) := do
  let (name, rest) ← name? s
  match skip rest with
  | '=' :: rest =>
    match skip rest with
    | quote :: rest =>
      guard (quote == '"' || quote == '\'')
      let (value, rest) ← upTo? [quote] rest
      guard !(value.contains '<')
      return (name, value, rest)
    | [] => none
  | _ => none

/-- Reads an attribute. -/
def attribute? (s : List Char) : Option (Attribute × List Char) := do
  let (name, value, rest) ← assignment? s
  return (⟨name, ← value? value⟩, rest)

/-- Reads what follows the name in an opening tag: attributes, each after white space, up to the
end of the tag, and no more of them than it counts. -/
def attributes? : Nat → List Char → Option (List Attribute × Bool × List Char)
  | 0, _ => none
  | fuel + 1, s =>
    match skip s with
    | '/' :: '>' :: rest => some ([], true, rest)
    | '>' :: rest => some ([], false, rest)
    | rest =>
      if s.head?.any isSpace then
        match attribute? rest with
        | some (a, rest) =>
          (attributes? fuel rest).map fun (as, closed, rest) => (a :: as, closed, rest)
        | none => none
      else none

/-- Reads an opening tag after its bracket. The qualifier of declarations is not for elements. -/
def opening? (most : Nat) (s : List Char) : Option (Token × List Char) := do
  let (name, rest) ← name? s
  guard (name.qualifier != "xmlns")
  let (attributes, closed, rest) ← attributes? most rest
  return (opening name attributes closed, rest)

/-- Reads a closing tag after its bracket and slash. -/
def closing? (s : List Char) : Option (Token × List Char) := do
  let (name, rest) ← name? s
  match skip rest with
  | '>' :: rest => return (closing name, rest)
  | _ => none

/-- Reads a comment after its mark. Two dashes end it and nothing else. -/
def comment? (s : List Char) : Option (Token × List Char) := do
  let (content, rest) ← upTo? "-->".toList s
  guard !(Text.occurs "--".toList content || content.getLast? == some '-')
  return (comment, rest)

/-- Reads an instruction after its mark. The target `xml` would make it a declaration. -/
def instruction? (s : List Char) : Option (Token × List Char) := do
  guard !("xml ".toList.isPrefixOf s)
  let (target, rest) := s.span inName
  guard (isWord target)
  let (value, rest) ← upTo? "?>".toList (skip rest)
  return (instruction (.ofList target) (if value.isEmpty then none else some (.ofList value)), rest)

/-- Reads character data up to the next bracket. -/
def characters? (s : List Char) : Option (Token × List Char) :=
  let (content, rest) := s.span (· != '<')
  if Text.occurs "]]>".toList content then none else some (characters content, rest)

/-- Reads the part with which a nonempty text starts. A tag has no more attributes than the text has
characters. -/
def next? (most : Nat) (s : List Char) : Option (Token × List Char) :=
  match s with
  | '<' :: '!' :: '-' :: '-' :: rest => comment? rest
  | '<' :: '!' :: '[' :: 'C' :: 'D' :: 'A' :: 'T' :: 'A' :: '[' :: rest =>
    (upTo? "]]>".toList rest).map fun (content, rest) => (.section content, rest)
  | '<' :: '?' :: rest => instruction? rest
  | '<' :: '/' :: rest => closing? rest
  | '<' :: rest => opening? most rest
  | _ => characters? s

/-- The parts of a text, counting down from its length. -/
def read? : Nat → List Char → Option (List Token)
  | _, [] => some []
  | 0, _ :: _ => none
  | fuel + 1, s =>
    match next? (fuel + 1) s with
    | some (t, rest) => (read? fuel rest).map (t :: ·)
    | none => none

/-- The parts of a text. -/
def ofText? (s : List Char) : Option (List Token) := read? s.length s

end Token

end RegisterMap.Xml
