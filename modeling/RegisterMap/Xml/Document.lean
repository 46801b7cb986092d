import RegisterMap.Xml.Token

/-!
# XML documents

The tree of a document from its parts. A document is one element, with comments and instructions
around it and perhaps a declaration in front of everything. It has no document type.
-/

namespace RegisterMap.Xml

/-- An element whose closing tag has not come yet. -/
structure Unclosed where
  name : Name
  attributes : List Attribute
  /-- The nodes in it so far, the last one first. -/
  children : List Node
  deriving Repr, Inhabited

/-- The element with the nodes that came up to its closing tag. -/
def Unclosed.close (u : Unclosed) : Node := .element u.name u.attributes u.children.reverse

/-- A document between two of its parts. -/
structure Progress where
  /-- The elements around the place, the innermost first. -/
  unclosed : List Unclosed := []
  root : Option Node := none
  deriving Repr, Inhabited

namespace Progress

/-- Nodes, the last one first, with a text after them; it goes on with a text in front of it. -/
def addText (s : String) : List Node → List Node
  | .text t :: ns => .text (t ++ s) :: ns
  | ns => .text s :: ns

/-- A node that is no text. Outside of the root there is no place for another element. -/
def add (p : Progress) (n : Node) : Option Progress :=
  match p.unclosed with
  | u :: us => some { p with unclosed := { u with children := n :: u.children } :: us }
  | [] =>
    match n with
    | .element _ _ _ => if p.root.isSome then none else some { p with root := some n }
    | _ => some p

/-- A text in an element. -/
def addCharacters (p : Progress) (s : String) : Option Progress :=
  match p.unclosed with
  | u :: us => some { p with unclosed := { u with children := addText s u.children } :: us }
  | [] => none

/-- One more part of the document. Texts outside of the root are white space. -/
def step (p : Progress) : Token → Option Progress
  | .opening name attributes true => p.add (.element name attributes [])
  | .opening name attributes false =>
    some { p with unclosed := ⟨name, attributes, []⟩ :: p.unclosed }
  | .closing name =>
    match p.unclosed with
    | u :: us => if u.name = name then { p with unclosed := us }.add u.close else none
    | [] => none
  | .characters s =>
    if p.unclosed.isEmpty then if s.all isSpace then some p else none
    else (text? s).bind p.addCharacters
  | .section s => p.addCharacters (literal s)
  | .instruction target value => p.add (.instruction target value)
  | .comment => p.add .comment

end Progress

/-- The root of a document that consists of the parts. -/
def tree? (ts : List Token) : Option Node := do
  let p ← ts.foldlM Progress.step {}
  guard p.unclosed.isEmpty
  p.root

/-! ## Declarations -/

/-- What follows an assignment, whose name starts with a word. -/
def afterAssignment? (word : String) (s : List Char) : Option (List Char) := do
  guard (word.toList.isPrefixOf s)
  let (_, _, rest) ← Token.assignment? s
  return rest

/-- What follows white space. Only at the end of the declaration may it be missing. -/
def afterSpace? (s : List Char) : Option (List Char) :=
  if s.head?.all isSpace || "?>".toList.isPrefixOf s then some (Token.skip s) else none

/-- What follows a declaration, if the text starts with one: a version, and perhaps an encoding and
whether the document stands alone, in this order. The values are not looked at. -/
def afterDeclaration? (s : List Char) : Option (List Char) :=
  match Text.afterMark? "<?xml ".toList s with
  | none => some s
  | some rest => do
    let rest ← afterSpace? (← afterAssignment? "version" (Token.skip rest))
    let rest ←
      if "encoding".toList.isPrefixOf rest then
        (afterAssignment? "encoding" rest).bind afterSpace?
      else some rest
    let rest ←
      if "standalone".toList.isPrefixOf rest then afterAssignment? "standalone" rest
      else some rest
    Text.afterMark? "?>".toList (Token.skip rest)

/-! ## Documents -/

/-- What follows a byte order mark, if the text starts with one. -/
def afterMark (s : List Char) : List Char :=
  match s with
  | '\uFEFF' :: rest => rest
  | _ => s

/-- The root of the document that a text spells. -/
def Node.ofText? (s : String) : Option Node := do
  let s := s.toList
  guard (s.all isAllowed)
  let root ← tree? (← Token.ofText? (← afterDeclaration? (afterMark s)))
  guard (root.isResolved [])
  return root

end RegisterMap.Xml
