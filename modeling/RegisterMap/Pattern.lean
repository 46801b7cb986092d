import RegisterMap.Text.Digit

/-!
# Name patterns

Patterns of names with numbered groups, and templates that the groups are filled into. Of several
ways to match, the one that comes first wins: an alternative before those after it, a longer run
before a shorter one, or the other way round for a reluctant run.
-/

namespace RegisterMap

/-- A pattern of texts. -/
inductive Pattern
  | empty
  | text (s : List Char)
  | one (accepts : Char → Bool)
  /-- At least so many characters of a class. -/
  | run (accepts : Char → Bool) (least : Nat) (greedy : Bool)
  | seq (a b : Pattern)
  | alt (a b : Pattern)
  | group (number : Nat) (p : Pattern)

namespace Pattern

/-- The texts of the groups. -/
abbrev Groups := List (Nat × List Char)

/-- Takes characters of a class one by one and goes on with what is left. -/
def matchRun (accepts : Char → Bool) (greedy : Bool) (next : List Char → Option α) :
    (least : Nat) → List Char → Option α
  | 0, [] => next []
  | _ + 1, [] => none
  | 0, c :: cs =>
    if accepts c then
      if greedy then matchRun accepts greedy next 0 cs <|> next (c :: cs)
      else next (c :: cs) <|> matchRun accepts greedy next 0 cs
    else next (c :: cs)
  | least + 1, c :: cs => if accepts c then matchRun accepts greedy next least cs else none

/-- Matches the start of a text and goes on with what is left and the groups. -/
def matchThen : Pattern → (List Char → Groups → Option α) → List Char → Groups → Option α
  | empty, next, s, gs => next s gs
  | text t, next, s, gs => if t.isPrefixOf s then next (s.drop t.length) gs else none
  | one accepts, next, s, gs =>
    match s with
    | c :: cs => if accepts c then next cs gs else none
    | [] => none
  | run accepts least greedy, next, s, gs => matchRun accepts greedy (next · gs) least s
  | seq a b, next, s, gs => matchThen a (fun s gs => matchThen b next s gs) s gs
  | alt a b, next, s, gs => matchThen a next s gs <|> matchThen b next s gs
  | group n p, next, s, gs =>
    matchThen p (fun rest gs => next rest ((n, s.take (s.length - rest.length)) :: gs)) s gs

/-- The groups when the whole text matches. -/
def groups? (p : Pattern) (s : String) : Option Groups :=
  p.matchThen (fun rest gs => if rest.isEmpty then some gs else none) s.toList []

/-- Whether the whole text matches. -/
def isMatch (p : Pattern) (s : String) : Bool := (p.groups? s).isSome

/-- The leftmost match in a text: what comes before it, last character first, the groups, and what
comes after it. -/
def search? (p : Pattern) (before : List Char) :
    List Char → Option (List Char × Groups × List Char)
  | [] => p.matchThen (fun rest gs => some (before, gs, rest)) [] []
  | c :: cs =>
    p.matchThen (fun rest gs => some (before, gs, rest)) (c :: cs) [] <|>
      search? p (c :: before) cs

/-! ## Building patterns -/

/-- The patterns one after another. -/
def all (ps : List Pattern) : Pattern := ps.foldr seq empty

/-- The pattern of a fixed text. -/
def lit (s : String) : Pattern := text s.toList

/-- One of several patterns, the first one being tried first. -/
def either : List Pattern → Pattern
  | [] => one fun _ => false
  | [p] => p
  | p :: ps => alt p (either ps)

/-- One of several fixed texts. -/
def words (ss : List String) : Pattern := either (ss.map lit)

/-- The pattern or nothing. -/
def maybe (p : Pattern) : Pattern := alt p empty

/-- Any character within a line. -/
def inLine (c : Char) : Bool := c != '\n'

/-- An ASCII character from `a` to `b`. -/
def between (a b c : Char) : Bool := a ≤ c && c ≤ b

/-- A decimal digit of any script. -/
def digit : Pattern := one Text.isDecimal

/-- Decimal digits of any script, as many as there are. -/
def digits : Pattern := run Text.isDecimal 1 true

/-- Decimal ASCII digits. -/
def asciiDigits (least : Nat) : Pattern := run Char.isDigit least true

/-- The rest of a line, or a part of it. -/
def anything : Pattern := run inLine 0 true

/-- One character of a line at least, as many as possible. -/
def something : Pattern := run inLine 1 true

/-- One character of a line at least, as few as possible. -/
def little : Pattern := run inLine 1 false

end Pattern

/-- A part of a template. -/
inductive Piece
  | text (s : String)
  | group (number : Nat)
  deriving DecidableEq, Repr

/-- A text with groups to be filled in. -/
abbrev Template := List Piece

/-- The template with the texts of the groups; a group that took no part is left out. -/
def Template.fill (t : Template) (gs : Pattern.Groups) : String :=
  .ofList (t.flatMap fun
    | .text s => s.toList
    | .group n => (gs.lookup n).getD [])

/-- The text with its leftmost match of a pattern replaced by a template. -/
def Pattern.replaceFirst (p : Pattern) (t : Template) (s : String) : String :=
  match p.search? [] s.toList with
  | none => s
  | some (before, gs, after) => .ofList (before.reverse ++ (t.fill gs).toList ++ after)

/-- A renaming of the names of a pattern. -/
structure Renaming where
  pattern : Pattern
  template : Template

/-- The name that the first fitting renaming gives, none when no renaming fits. -/
def Renaming.first? (table : List Renaming) (name : String) : Option String :=
  table.findSome? fun r => (r.pattern.groups? name).map r.template.fill

/-- The name that the first fitting renaming gives, or the name itself. -/
def Renaming.rename (table : List Renaming) (name : String) : String :=
  (first? table name).getD name

end RegisterMap
