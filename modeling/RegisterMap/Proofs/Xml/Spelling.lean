import RegisterMap.Proofs.Xml.Token

/-!
# Plain trees and their characters

A tree is plain when its names, texts, values and instructions are spelled so that nothing else is
read (`Node.isPlain`). `Node.spelled` are the characters of its lines, and `Node.laid` is the tree
that they are read as: line breaks and columns are texts between its nodes, an empty text is none.
-/

namespace RegisterMap.Xml

open Text (ended ended_append)

namespace Node

/-! ## Plain trees -/

/-- A text that is read as it is written. -/
def isPlainText (s : List Char) : Bool := s.all fun c => isAllowed c && c != '\r'

/-- The tag of an element can be read. -/
def isPlainTag (name : Name) (attributes : List Attribute) : Bool :=
  name.isPlain && name.qualifier != "xmlns" && attributes.all Attribute.isPlain

mutual

/-- A node that is read as it is written. Texts stand alone in their elements. -/
def isPlain : Node → Bool
  | element name attributes [text s] => isPlainTag name attributes && isPlainText s.toList
  | element name attributes children => isPlainTag name attributes && arePlain children
  | text _ => false
  | instruction target value =>
    isPlainWord target.toList && target != "xml" && value.all (Token.isPlainValue ·.toList)
  | comment => true

/-- Nodes that are read as they are written. -/
def arePlain : List Node → Bool
  | [] => true
  | n :: ns => n.isPlain && arePlain ns

end

/-! ## Layout -/

/-- A line break and the blanks in front of a line. -/
def newline (depth : Nat) : List Char := '\n' :: List.replicate (3 * depth) ' '

/-- The column of a node in steps. An instruction with a value stands in that of its element. -/
def column (depth : Nat) : Node → Nat
  | instruction _ (some _) => depth - 1
  | _ => depth

mutual

/-- The node as it is read: its lines begin with texts, and an empty text is none. -/
def laid (depth : Nat) : Node → Node
  | element name attributes [text s] =>
    element name attributes (if s.isEmpty then [] else [text s])
  | element name attributes children =>
    element name attributes (laidAll (depth + 1) children ++ [text (.ofList (newline depth))])
  | n => n

/-- The nodes as they are read, each after the text in front of it. -/
def laidAll (depth : Nat) : List Node → List Node
  | [] => []
  | n :: ns => text (.ofList (newline (n.column depth))) :: n.laid depth :: laidAll depth ns

end

mutual

/-- The characters of a node, without the break behind its last line. -/
def spelled (depth : Nat) : Node → List Char
  | element name attributes [text s] =>
    (openTag name attributes).toList ++ s.toList.flatMap escapeText ++ (closeTag name).toList
  | element name attributes children =>
    (openTag name attributes).toList ++ spelledAll (depth + 1) children ++ newline depth ++
      (closeTag name).toList
  | text s => s.toList.flatMap escapeText
  | instruction target value => Token.instructionText target value
  | comment => Token.commentText

/-- The characters of nodes, each on lines of its own. -/
def spelledAll (depth : Nat) : List Node → List Char
  | [] => []
  | n :: ns => newline (n.column depth) ++ n.spelled depth ++ spelledAll depth ns

end

/-- Induction along a tree, where an element that holds nothing but a text is a leaf. -/
theorem tree_induction {motive : Node → Prop}
    (single : ∀ name attributes s, motive (element name attributes [text s]))
    (several : ∀ name attributes children, (∀ s, children ≠ [text s]) →
      (∀ n ∈ children, motive n) → motive (element name attributes children))
    (text : ∀ s, motive (text s)) (instruction : ∀ target value, motive (instruction target value))
    (comment : motive comment) : (n : Node) → motive n
  | .element name attributes children => by
    by_cases h : ∃ s, children = [.text s]
    · obtain ⟨s, rfl⟩ := h
      exact single name attributes s
    · exact several name attributes children (fun s e => h ⟨s, e⟩) fun n _ =>
        tree_induction single several text instruction comment n
  | .text s => text s
  | .instruction target value => instruction target value
  | .comment => comment

section Several

variable {name : Name} {attributes : List Attribute} {children : List Node} {depth : Nat}

theorem isPlain_several (h : ∀ s, children ≠ [text s]) :
    (element name attributes children).isPlain =
      (isPlainTag name attributes && arePlain children) := by
  rw [isPlain]
  exact h

theorem laid_several (h : ∀ s, children ≠ [text s]) :
    (element name attributes children).laid depth = element name attributes
      (laidAll (depth + 1) children ++ [text (.ofList (newline depth))]) := by
  rw [laid]
  exact h

theorem spelled_several (h : ∀ s, children ≠ [text s]) :
    (element name attributes children).spelled depth =
      (openTag name attributes).toList ++ spelledAll (depth + 1) children ++ newline depth ++
        (closeTag name).toList := by
  rw [spelled]
  exact h

theorem lines_several (h : ∀ s, children ≠ [text s]) :
    (element name attributes children).lines depth =
      line depth (openTag name attributes) :: linesOf (depth + 1) children ++
        [line depth (closeTag name)] := by
  rw [lines]
  exact h

end Several

/-! ## The lines of a document -/

theorem toList_ended_cons (l : String) (ls : List String) :
    (ended (l :: ls)).toList = l.toList ++ '\n' :: (ended ls).toList := by
  simp

theorem newline_append (depth : Nat) (s : String) :
    '\n' :: (line depth s).toList = newline depth ++ s.toList := by
  simp [line, newline]

theorem ended_linesOf {ns : List Node} {depth : Nat}
    (h : ∀ n ∈ ns, '\n' :: (ended (n.lines depth)).toList =
      newline (n.column depth) ++ n.spelled depth ++ ['\n']) :
    '\n' :: (ended (linesOf depth ns)).toList = spelledAll depth ns ++ ['\n'] := by
  induction ns with
  | nil => rfl
  | cons n ns ih =>
    obtain ⟨hn, hns⟩ := List.forall_mem_cons.1 h
    rw [linesOf, ended_append, String.toList_append, ← List.cons_append, hn, spelledAll,
      List.append_assoc, List.singleton_append, ih hns]
    simp

theorem ended_lines (n : Node) (depth : Nat) :
    '\n' :: (ended (n.lines depth)).toList =
      newline (n.column depth) ++ n.spelled depth ++ ['\n'] := by
  induction n using tree_induction generalizing depth with
  | single name attributes s =>
    rw [lines, toList_ended_cons, ← List.cons_append, newline_append]
    simp [spelled, column, escaped, ended]
  | several name attributes children h ih =>
    rw [lines_several h, spelled_several h, List.cons_append, toList_ended_cons, ended_append,
      String.toList_append, toList_ended_cons, ← List.cons_append, newline_append,
      ← List.cons_append, ended_linesOf fun n hn => ih n hn (depth + 1)]
    simp only [List.append_assoc, List.singleton_append]
    rw [← List.cons_append, newline_append]
    simp [column, ended]
  | text s =>
    rw [lines, toList_ended_cons, ← List.cons_append, newline_append]
    simp [spelled, column, escaped, ended]
  | instruction target value =>
    cases value <;> rw [lines, toList_ended_cons, ← List.cons_append, newline_append] <;>
      simp [spelled, column, Token.instructionText, ended, ToString.toString]
  | comment =>
    rw [lines, toList_ended_cons, ← List.cons_append, newline_append, spelled, column]
    · rfl
    · intro _ _ h
      cases h

/-- The characters of a document behind its declaration. -/
theorem toList_document (root : Node) :
    (document root).toList = "<?xml version=\"1.0\" encoding=\"UTF-8\"?>".toList ++
      (newline (root.column 0) ++ root.spelled 0 ++ ['\n']) := by
  rw [← ended_lines]
  simp [document, ended]

end Node

end RegisterMap.Xml
