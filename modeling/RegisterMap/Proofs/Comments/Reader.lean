import RegisterMap.CText

/-!
# C texts without their comments

What is left of a C text when lines that end in a backslash are joined with those behind them, and
then every comment gives way to a gap (`withoutComments`). A reader that goes through the text once
(`Reader`) finds the same; what it makes of a text follows from what it makes of its parts, and
`Alike` compares two texts by that.
-/

namespace RegisterMap.CText

/-- The text with every line that ends in a backslash joined with the next one. -/
def splice : List Char → List Char
  | '\\' :: '\n' :: cs => splice cs
  | c :: cs => c :: splice cs
  | [] => []

/-- Where one stands in a C text. -/
inductive Mode
  | code
  /-- Behind a slash, with which a comment may begin. -/
  | slash
  /-- In a comment up to the end of the line. -/
  | line
  /-- In a comment with an end of its own. -/
  | block
  /-- In such a comment behind a star, with which its end may begin. -/
  | star
  /-- In a character or string literal. -/
  | quoted (mark : Char)
  /-- In a literal behind a backslash. -/
  | escaped (mark : Char)
  deriving DecidableEq, Repr

namespace Mode

/-- Where a character of code leads to. -/
def ofCode (c : Char) : Mode :=
  if c = '/' then slash else if c = '"' ∨ c = '\'' then quoted c else code

/-- Where a character leads to. -/
def after : Mode → Char → Mode
  | code, c => ofCode c
  | slash, c => if c = '*' then block else if c = '/' then line else ofCode c
  | line, c => if c = '\n' then code else line
  | block, c => if c = '*' then star else block
  | star, c => if c = '/' then code else if c = '*' then star else block
  | quoted mark, c =>
    if c = mark ∨ c = '\n' then code else if c = '\\' then escaped mark else quoted mark
  | escaped mark, _ => quoted mark

/-- What is known to be left of a text at a character, with the gap at the end of a comment. -/
def left (gap : List Char) : Mode → Char → List Char
  | code, c => if c = '/' then [] else [c]
  | slash, c => if c = '*' ∨ c = '/' then [] else ['/', c]
  | line, c => if c = '\n' then gap ++ [c] else []
  | block, _ => []
  | star, c => if c = '/' then gap else []
  | quoted _, c => [c]
  | escaped _, c => [c]

/-- What is left of a text from a mode on. -/
def strip (gap : List Char) : Mode → List Char → List Char
  | q, [] => if q = slash then ['/'] else []
  | q, c :: cs => q.left gap c ++ strip gap (q.after c) cs

end Mode

/-- The text with the gap in the place of every comment. -/
def withoutComments (gap text : String) : String :=
  .ofList (Mode.code.strip gap.toList (splice text.toList))

/-! ## Reading once -/

/-- Where one stands, and whether there is a backslash that may join two lines. -/
abbrev Reader := Mode × Bool

namespace Reader

def code : Reader := (.code, false)

def block : Reader := (.block, false)

def after : Reader → Char → Reader
  | (q, false), c => if c = '\\' then (q, true) else (q.after c, false)
  | (q, true), c =>
    if c = '\n' then (q, false)
    else if c = '\\' then (q.after '\\', true)
    else ((q.after '\\').after c, false)

def left (gap : List Char) : Reader → Char → List Char
  | (q, false), c => if c = '\\' then [] else q.left gap c
  | (q, true), c =>
    if c = '\n' then []
    else if c = '\\' then q.left gap '\\'
    else q.left gap '\\' ++ (q.after '\\').left gap c

/-- Where a text leads to. -/
def finish (q : Reader) (cs : List Char) : Reader := cs.foldl after q

/-- What is left of a text that leads back to code. -/
def strip (gap : List Char) : Reader → List Char → List Char
  | _, [] => []
  | q, c :: cs => q.left gap c ++ strip gap (q.after c) cs

theorem finish_append (q : Reader) (as bs : List Char) :
    q.finish (as ++ bs) = (q.finish as).finish bs :=
  List.foldl_append

theorem strip_append (gap : List Char) (q : Reader) (as bs : List Char) :
    strip gap q (as ++ bs) = strip gap q as ++ strip gap (q.finish as) bs := by
  induction as generalizing q with
  | nil => rfl
  | cons a as ih => rw [List.cons_append, strip, strip, ih, List.append_assoc]; rfl

/-- The characters that the reader holds back. -/
def held : Reader → List Char
  | (_, false) => []
  | (_, true) => ['\\']

theorem splice_cons_of_ne {c : Char} (h : c ≠ '\\') (cs : List Char) :
    splice (c :: cs) = c :: splice cs := by
  rw [splice]
  rintro ds hc -
  exact h hc

theorem splice_backslash {c : Char} (h : c ≠ '\n') (cs : List Char) :
    splice ('\\' :: c :: cs) = '\\' :: splice (c :: cs) := by
  rw [splice]
  rintro ds - hcs
  cases hcs
  exact h rfl

/-- The reader leaves what is left when lines are joined first. -/
theorem strip_eq {q : Reader} {cs : List Char} (h : q.finish cs = code) (gap : List Char) :
    q.strip gap cs = q.1.strip gap (splice (q.held ++ cs)) := by
  induction cs generalizing q with
  | nil =>
    cases h
    rfl
  | cons c cs ih =>
    obtain ⟨q, pending⟩ := q
    rw [strip, ih h]
    cases pending with
    | false =>
      by_cases hc : c = '\\'
      · subst hc
        rfl
      · have hsplice := splice_cons_of_ne hc cs
        simp only [after, left, held, if_neg hc, List.nil_append, hsplice, Mode.strip]
    | true =>
      by_cases hn : c = '\n'
      · subst hn
        rfl
      · have hheld := splice_backslash hn cs
        by_cases hc : c = '\\'
        · subst hc
          simp only [after, left, held, if_neg hn, if_true, List.cons_append, List.nil_append,
            hheld, Mode.strip]
        · have hsplice := splice_cons_of_ne hc cs
          simp only [after, left, held, if_neg hn, if_neg hc, List.cons_append, List.nil_append,
            hheld, hsplice, Mode.strip, List.append_assoc]

end Reader

open Reader (code block)

/-- The text leads from one place to another. -/
def Leads (q r : Reader) (a : String) : Prop := q.finish a.toList = r

instance (q r : Reader) (a : String) : Decidable (Leads q r a) :=
  inferInstanceAs (Decidable (_ = _))

/-- From one place both texts lead to the other, and they leave the same. -/
structure Alike (q r : Reader) (a b : String) : Prop where
  leads_left : Leads q r a
  leads_right : Leads q r b
  strip_eq : ∀ gap, q.strip gap a.toList = q.strip gap b.toList

/-- Nothing is left of the text between one place and the other. -/
structure Skips (q r : Reader) (a : String) : Prop where
  leads : Leads q r a
  strip_eq : ∀ gap, q.strip gap a.toList = []

section Rules

variable {q r t : Reader} {a b c d : String}

/-- Where a text leads that is written out. Its characters are read as a list, which is faster to
evaluate than the text. -/
theorem leads_ofList {cs : List Char} (h : q.finish cs = r) : Leads q r (.ofList cs) := by
  rw [Leads, String.toList_ofList, h]

theorem Leads.append (ha : Leads q r a) (hb : Leads r t b) : Leads q t (a ++ b) := by
  rw [Leads, String.toList_append, Reader.finish_append, show q.finish a.toList = r from ha]
  exact hb

theorem Leads.alike (h : Leads q r a) : Alike q r a a := ⟨h, h, fun _ => rfl⟩

theorem Skips.append (ha : Skips q r a) (hb : Skips r t b) : Skips q t (a ++ b) where
  leads := ha.leads.append hb.leads
  strip_eq gap := by
    rw [String.toList_append, Reader.strip_append, show q.finish a.toList = r from ha.leads,
      ha.strip_eq, hb.strip_eq, List.nil_append]

theorem Skips.alike (ha : Skips q r a) (hb : Skips q r b) : Alike q r a b :=
  ⟨ha.leads, hb.leads, fun gap => by rw [ha.strip_eq, hb.strip_eq]⟩

namespace Alike

theorem symm (h : Alike q r a b) : Alike q r b a :=
  ⟨h.leads_right, h.leads_left, fun gap => (h.strip_eq gap).symm⟩

theorem trans (hab : Alike q r a b) (hbc : Alike q r b c) : Alike q r a c :=
  ⟨hab.leads_left, hbc.leads_right, fun gap => (hab.strip_eq gap).trans (hbc.strip_eq gap)⟩

theorem append (hab : Alike q r a b) (hcd : Alike r t c d) : Alike q t (a ++ c) (b ++ d) where
  leads_left := hab.leads_left.append hcd.leads_left
  leads_right := hab.leads_right.append hcd.leads_right
  strip_eq gap := by
    rw [String.toList_append, String.toList_append, Reader.strip_append, Reader.strip_append,
      show q.finish a.toList = r from hab.leads_left,
      show q.finish b.toList = r from hab.leads_right, hab.strip_eq, hcd.strip_eq]

theorem withoutComments (h : Alike code code a b) (gap : String) :
    CText.withoutComments gap a = CText.withoutComments gap b := by
  have ha := Reader.strip_eq h.leads_left gap.toList
  have hb := Reader.strip_eq h.leads_right gap.toList
  rw [CText.withoutComments, CText.withoutComments]
  exact congrArg String.ofList (ha.symm.trans ((h.strip_eq gap.toList).trans hb))

end Alike

end Rules

/-- The characters with which no comment and no literal begins or ends. -/
def isInert (c : Char) : Bool := !(['/', '*', '"', '\'', '\\', '\n'].contains c)

/-- No comment and no literal begins or ends in the text. -/
def IsInert (a : String) : Prop := ∀ c ∈ a.toList, isInert c = true

instance : DecidablePred IsInert := fun a => List.decidableBAll (isInert · = true) a.toList

/-- A text that is written out is inert when its characters are. -/
theorem isInert_ofList {cs : List Char} (h : cs.all isInert = true) : IsInert (.ofList cs) := by
  rw [IsInert, String.toList_ofList]
  exact List.all_eq_true.1 h

theorem after_of_isInert {c : Char} (h : isInert c = true) :
    code.after c = code ∧ block.after c = block ∧ ∀ gap, block.left gap c = [] := by
  have h : c ∉ ['/', '*', '"', '\'', '\\', '\n'] := by simpa [isInert] using h
  simp only [List.mem_cons, not_or] at h
  obtain ⟨hslash, hstar, hdouble, hsingle, hback, -⟩ := h
  simp [code, block, Reader.after, Reader.left, Mode.after, Mode.left, Mode.ofCode, *]

namespace IsInert

theorem code {a : String} (h : IsInert a) : Leads code code a := by
  suffices hcs : ∀ cs : List Char, (∀ c ∈ cs, isInert c = true) →
      Reader.code.finish cs = Reader.code from hcs _ h
  intro cs hcs
  induction cs with
  | nil => rfl
  | cons c cs ih =>
    obtain ⟨hc, hcs⟩ := List.forall_mem_cons.1 hcs
    show (Reader.code.after c).finish cs = Reader.code
    rw [(after_of_isInert hc).1]
    exact ih hcs

theorem skips {a : String} (h : IsInert a) : Skips block block a := by
  suffices hcs : ∀ cs : List Char, (∀ c ∈ cs, isInert c = true) →
      Reader.block.finish cs = Reader.block ∧ ∀ gap, Reader.block.strip gap cs = [] from
    ⟨(hcs _ h).1, (hcs _ h).2⟩
  intro cs hcs
  induction cs with
  | nil => exact ⟨rfl, fun _ => rfl⟩
  | cons c cs ih =>
    obtain ⟨hc, hcs⟩ := List.forall_mem_cons.1 hcs
    obtain ⟨hafter, hleft⟩ := (after_of_isInert hc).2
    obtain ⟨hfinish, hstrip⟩ := ih hcs
    refine ⟨?_, fun gap => ?_⟩
    · show (Reader.block.after c).finish cs = Reader.block
      rw [hafter, hfinish]
    · rw [Reader.strip, hafter, hleft, hstrip, List.nil_append]

theorem block {a : String} (h : IsInert a) : Leads block block a := h.skips.leads

end IsInert

/-! ## The inside of a comment -/

namespace Reader

/-- A comment with an end of its own is read. -/
def isInside (q : Reader) : Bool := q.1 == .block || q.1 == .star

/-- A character that neither ends the line nor closes the comment leaves the reader inside of it,
and only a star may begin its end. -/
theorem isInside_after {q : Reader} {c : Char} (hq : q.isInside = true) (hline : c ≠ '\n')
    (hslash : q = (.star, false) → c ≠ '/') :
    (q.after c).isInside = true ∧ (∀ gap, q.left gap c = []) ∧
      (q.after c = (.star, false) → c = '*') := by
  obtain ⟨q, pending⟩ := q
  cases q with
  | code => cases hq
  | slash => cases hq
  | line => cases hq
  | quoted => cases hq
  | escaped => cases hq
  | block => cases pending <;> grind [after, left, isInside, Mode.after, Mode.left]
  | star => cases pending <;> grind [after, left, isInside, Mode.after, Mode.left]

/-- A text within a line that cannot close a comment leaves the reader inside of it. -/
theorem isInside_finish {q : Reader} {cs : List Char} (hq : q.isInside = true)
    (hclose : Text.occurs ['*', '/'] cs = false) (hline : '\n' ∉ cs)
    (hslash : q = (.star, false) → cs.head? ≠ some '/') :
    (q.finish cs).isInside = true ∧ ∀ gap, q.strip gap cs = [] := by
  induction cs generalizing q with
  | nil => exact ⟨hq, fun _ => rfl⟩
  | cons c cs ih =>
    rw [List.mem_cons, not_or] at hline
    obtain ⟨hmark, hclose⟩ := Bool.or_eq_false_iff.1 hclose
    obtain ⟨hafter, hleft, hstar⟩ := isInside_after hq (Ne.symm hline.1) fun hq hc =>
      hslash hq (by rw [hc]; rfl)
    have hnext : q.after c = (.star, false) → cs.head? ≠ some '/' := by
      intro hq hhead
      obtain ⟨ds, rfl⟩ := List.head?_eq_some_iff.1 hhead
      rw [hstar hq] at hmark
      cases hmark
    obtain ⟨hfinish, hstrip⟩ := ih hafter hclose hline.2 hnext
    exact ⟨hfinish, fun gap => by rw [strip, hleft, hstrip, List.nil_append]⟩

/-- A space leads on inside of a comment, also at the start of a line. -/
theorem skips_space {q : Reader} (hq : q.isInside = true) :
    Skips q block " " ∧ Skips q block "\n " := by
  obtain ⟨q, pending⟩ := q
  cases q <;> cases hq <;> cases pending <;> exact ⟨⟨rfl, fun _ => rfl⟩, ⟨rfl, fun _ => rfl⟩⟩

end Reader

end RegisterMap.CText
