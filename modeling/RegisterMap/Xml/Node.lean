import RegisterMap.Xml.Character

/-!
# XML nodes

The tree of a document, and its text over several lines: an element with nothing but text stands
in one line, any other over as many as it has parts. Names keep the namespace qualifier with which
they are written; `Node.isResolved` says that every qualifier is declared.
-/

namespace RegisterMap.Xml

/-- A name with the qualifier before its colon, empty for none. -/
structure Name where
  qualifier : String := ""
  base : String
  deriving DecidableEq, Repr, Inhabited

/-- The name as it is written. -/
def Name.text (n : Name) : String :=
  if n.qualifier.isEmpty then n.base else n.qualifier ++ ":" ++ n.base

/-- A named value of an element. -/
structure Attribute where
  name : Name
  value : String
  deriving DecidableEq, Repr, Inhabited

/-- A part of a document. -/
inductive Node
  | element (name : Name) (attributes : List Attribute) (children : List Node)
  | text (s : String)
  /-- A processing instruction; its value is what comes after the target. -/
  | instruction (target : String) (value : Option String)
  | comment
  deriving Repr, Inhabited

namespace Node

/-- An element without attributes that holds nodes. -/
def group (tag : String) (children : List Node) : Node := element ⟨"", tag⟩ [] children

/-- An element without attributes that holds a text. -/
def leaf (tag value : String) : Node := element ⟨"", tag⟩ [] [text value]

/-- The text with which a list of nodes starts, without blanks around it. -/
def textOf : List Node → String
  | text s :: _ => Text.trim s
  | _ => ""

/-- The value of an attribute that is in no namespace. -/
def attribute? (name : String) (attributes : List Attribute) : Option String :=
  (attributes.find? fun a => a.name == ⟨"", name⟩).map (·.value)

/-- The tag of an element, without its qualifier. -/
def tag? : Node → Option String
  | element name _ _ => some name.base
  | _ => none

/-! ## Namespaces -/

/-- The namespace of the qualifier `xml`. -/
def xmlSpace : String := "http://www.w3.org/XML/1998/namespace"

/-- The namespace of the attributes that declare namespaces. -/
def declarationSpace : String := "http://www.w3.org/2000/xmlns/"

/-- Declared qualifiers and their namespaces, the innermost first. -/
abbrev Scope := List (String × String)

/-- The declarations of qualifiers among attributes. The qualifier `xml` needs none. -/
def declarations (attributes : List Attribute) : Scope :=
  (attributes.filter fun a => a.name.qualifier == "xmlns" && a.name.base != "xml").map fun a =>
    (a.name.base, a.value)

/-- The attribute declares a namespace, for a qualifier or for names without one. -/
def isDeclaration (a : Attribute) : Bool := a.name.qualifier == "xmlns" || a.name.base == "xmlns"

/-- The declaration takes no namespace that has a qualifier of its own. -/
def isLegalDeclaration (a : Attribute) : Bool :=
  a.value != declarationSpace &&
    (a.value == xmlSpace) == (a.name.qualifier == "xmlns" && a.name.base == "xml")

/-- The namespace of an attribute, which may be in none, if its qualifier is declared. -/
def spaceOf? (scope : Scope) (name : Name) : Option (Option String) :=
  if name.qualifier.isEmpty then some none
  else if name.qualifier == "xml" then some (some xmlSpace)
  else (scope.lookup name.qualifier).map some

/-- The attributes of an element are declared and all different. -/
def areResolved (scope : Scope) (attributes : List Attribute) : Bool :=
  let declaring := attributes.filter isDeclaration
  let names := (attributes.filter (!isDeclaration ·)).map (·.name)
  declaring.all isLegalDeclaration &&
    ((declarations attributes).map Prod.fst).Nodup &&
    match names.mapM (spaceOf? scope) with
    | some spaces => (spaces.zip (names.map Name.base)).Nodup
    | none => false

mutual

/-- Every qualifier in the node is declared, and no element has an attribute twice. -/
def isResolved (scope : Scope) : Node → Bool
  | element name attributes children =>
    let scope := declarations attributes ++ scope
    (name.qualifier.isEmpty ||
        (name.qualifier != "xml" && (scope.lookup name.qualifier).isSome)) &&
      areResolved scope attributes && areAllResolved scope children
  | _ => true

/-- Every qualifier in the nodes is declared. -/
def areAllResolved (scope : Scope) : List Node → Bool
  | [] => true
  | n :: ns => n.isResolved scope && areAllResolved scope ns

end

/-! ## Text -/

/-- An attribute in a tag. -/
def attributeText (a : Attribute) : String :=
  s!" {a.name.text}=\"{String.ofList (a.value.toList.flatMap escapeValue)}\""

/-- The opening tag of an element. -/
def openTag (name : Name) (attributes : List Attribute) : String :=
  s!"<{name.text}{String.join (attributes.map attributeText)}>"

/-- The closing tag of an element. -/
def closeTag (name : Name) : String := s!"</{name.text}>"

/-- A text in a document. -/
def escaped (s : String) : String := .ofList (s.toList.flatMap escapeText)

/-- A line so many steps from the left. -/
def line (depth : Nat) (s : String) : String := .ofList (List.replicate (3 * depth) ' ') ++ s

mutual

/-- The lines of a node. An instruction with a value stands in the column of its element. -/
def lines (depth : Nat) : Node → List String
  | element name attributes [text s] =>
    [line depth (openTag name attributes ++ escaped s ++ closeTag name)]
  | element name attributes children =>
    line depth (openTag name attributes) :: linesOf (depth + 1) children ++
      [line depth (closeTag name)]
  | text s => [line depth (escaped s)]
  | instruction target none => [line depth s!"<?{target}?>"]
  | instruction target (some value) => [line (depth - 1) s!"<?{target} {value}?>"]
  | comment => [line depth "<!-- -->"]

/-- The lines of several nodes. -/
def linesOf (depth : Nat) : List Node → List String
  | [] => []
  | n :: ns => n.lines depth ++ linesOf depth ns

end

/-- The text of a document with the node at its root. -/
def document (root : Node) : String :=
  String.join (("<?xml version=\"1.0\" encoding=\"UTF-8\"?>" :: root.lines 0).map (· ++ "\n"))

end Node

end RegisterMap.Xml
