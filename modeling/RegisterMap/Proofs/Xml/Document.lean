import RegisterMap.Proofs.Xml.Spelling
import RegisterMap.Xml.Document

/-!
# Reading a document that was written

The document of a plain tree is read as the same tree, laid out on its lines
(`Node.ofText?_document`). Reading the characters of a part leads from one state of the document to
the next (`Leads`), so that reading follows the tree.
-/

namespace RegisterMap.Xml

/-! ## Reading part by part -/

/-- The document behind the parts of a text. -/
def run? (fuel : Nat) (p : Progress) (s : List Char) : Option Progress :=
  (Token.read? fuel s).bind fun ts => ts.foldlM Progress.step p

/-- Reading `s` leads from one state of the document to the other, when `rest` comes next. -/
def Leads (p : Progress) (s : List Char) (q : Progress) (rest : List Char) : Prop :=
  ∀ fuel, (s ++ rest).length ≤ fuel →
    ∃ fuel', rest.length ≤ fuel' ∧ run? fuel p (s ++ rest) = run? fuel' q rest

variable {p q r : Progress} {s t rest : List Char}

theorem Leads.nil (p : Progress) (rest : List Char) : Leads p [] p rest :=
  fun fuel h => ⟨fuel, h, rfl⟩

theorem Leads.trans (h : Leads p s q (t ++ rest)) (g : Leads q t r rest) :
    Leads p (s ++ t) r rest := by
  intro fuel hfuel
  rw [List.append_assoc] at hfuel ⊢
  obtain ⟨fuel₁, hfuel₁, h⟩ := h fuel hfuel
  obtain ⟨fuel₂, hfuel₂, g⟩ := g fuel₁ hfuel₁
  exact ⟨fuel₂, hfuel₂, h.trans g⟩

/-- A part that is read as a token leads to the next state. -/
theorem Leads.of_next (token : Token) (hne : s ≠ [])
    (hnext : ∀ most, (s ++ rest).length ≤ most → Token.next? most (s ++ rest) = some (token, rest))
    (hstep : p.step token = some q) : Leads p s q rest := by
  intro fuel hfuel
  obtain ⟨c, cs, rfl⟩ := List.exists_cons_of_ne_nil hne
  obtain ⟨k, rfl⟩ : ∃ k, fuel = k + 1 := by
    rw [List.cons_append, List.length_cons] at hfuel
    exact Nat.exists_eq_succ_of_ne_zero (by omega)
  refine ⟨k, ?_, ?_⟩
  · rw [List.cons_append, List.length_cons, List.length_append] at hfuel
    omega
  · have hread : Token.read? (k + 1) (c :: cs ++ rest) =
        (Token.read? k rest).map (token :: ·) := by
      rw [Token.read?, hnext _ hfuel]
      exact fun h => nomatch h
    rw [run?, hread, run?]
    cases Token.read? k rest with
    | none => rfl
    | some ts => simp [hstep]

/-! ## Reading a plain tree -/

namespace Node

def isText : Node → Bool
  | text _ => true
  | _ => false

/-- No text is the last node so far, so that a text begins a new one. -/
def beginsText (ns : List Node) : Bool := ns.head?.all (!isText ·)

variable {depth : Nat} {n : Node} {ns : List Node} {name : Name} {attributes : List Attribute}
  {u : Unclosed}

theorem addText_of_beginsText {ns : List Node} (h : beginsText ns = true) (s : String) :
    Progress.addText s ns = text s :: ns := by
  match ns with
  | [] => rfl
  | element .. :: _ => rfl
  | instruction .. :: _ => rfl
  | comment :: _ => rfl
  | text _ :: _ => cases h

theorem laid_instruction (target : String) (value : Option String) (depth : Nat) :
    (instruction target value).laid depth = instruction target value := by
  rw [laid] <;> simp

theorem laid_comment (depth : Nat) : comment.laid depth = comment := by
  rw [laid] <;> simp

theorem isText_laid (h : n.isPlain = true) (depth : Nat) : (n.laid depth).isText = false := by
  induction n using tree_induction with
  | single => rw [laid]; rfl
  | several name attributes children hs => rw [laid_several hs]; rfl
  | text => cases h
  | instruction => rw [laid_instruction]; rfl
  | comment => rw [laid_comment]; rfl

/-- A text in front of a tag is added to the element around it. -/
theorem leads_text (hne : s ≠ []) (hs : isPlainText s = true) (hu : beginsText u.children = true)
    (rest : List Char) :
    Leads ⟨u :: p.unclosed, p.root⟩ (s.flatMap escapeText)
      ⟨{ u with children := text (.ofList s) :: u.children } :: p.unclosed, p.root⟩
      ('<' :: rest) := by
  have hreturn : '\r' ∉ s := by
    intro hm
    have := List.all_eq_true.1 hs _ hm
    simp at this
  have hnil : s.flatMap escapeText ≠ [] := by
    obtain ⟨c, cs, rfl⟩ := List.exists_cons_of_ne_nil hne
    have hc : escapeText c ≠ [] := by
      unfold escapeText
      split
      · decide
      · split
        · decide
        · split
          · decide
          · exact List.cons_ne_nil c []
    rw [List.flatMap_cons]
    exact List.append_ne_nil_of_left_ne_nil hc _
  refine Leads.of_next _ hnil (fun most _ => Token.next?_characters hnil
    (not_mem_escapedText (.inl rfl)) (not_mem_escapedText (.inr rfl)) most rest) ?_
  simp [Progress.step, text?_escape hreturn, Progress.addCharacters, addText_of_beginsText hu]

theorem isPlainText_newline (depth : Nat) : isPlainText (newline depth) = true := by
  have hspace : isAllowed ' ' = true := by decide
  have hbreak : isAllowed '\n' = true := by decide
  simp [isPlainText, newline, hspace, hbreak]

theorem escape_newline (depth : Nat) : (newline depth).flatMap escapeText = newline depth := by
  have hspaces (k : Nat) : (List.replicate k ' ').flatMap escapeText = List.replicate k ' ' := by
    induction k with
    | zero => rfl
    | succ k ih => rw [List.replicate_succ, List.flatMap_cons, ih]; rfl
  rw [newline, List.flatMap_cons, hspaces]
  rfl

theorem leads_newline (hu : beginsText u.children = true) (depth : Nat) (rest : List Char) :
    Leads ⟨u :: p.unclosed, p.root⟩ (newline depth)
      ⟨{ u with children := text (.ofList (newline depth)) :: u.children } :: p.unclosed, p.root⟩
      ('<' :: rest) := by
  have h := leads_text (p := p) (List.cons_ne_nil '\n' _)
    (isPlainText_newline depth) hu rest
  rwa [← newline, escape_newline] at h

theorem length_le_attributeTexts (as : List Attribute) :
    as.length ≤ (as.flatMap fun a => (attributeText a).toList).length := by
  induction as with
  | nil => exact Nat.le_refl 0
  | cons a as ih =>
    rw [List.flatMap_cons, List.length_append, Token.toList_attributeText, List.length_cons,
      List.length_cons]
    omega

/-- The content of an element between its tags makes the element. -/
theorem leads_element {content : List Char} {children : List Node}
    (htag : isPlainTag name attributes = true)
    (hcontent : ∀ rest, Leads ⟨⟨name, attributes, []⟩ :: p.unclosed, p.root⟩ content
      ⟨⟨name, attributes, children.reverse⟩ :: p.unclosed, p.root⟩ ('<' :: rest))
    (hadd : p.add (element name attributes children) = some q) (rest : List Char) :
    Leads p ((openTag name attributes).toList ++ content ++ (closeTag name).toList) q rest := by
  simp only [isPlainTag, Bool.and_eq_true, bne_iff_ne] at htag
  obtain ⟨⟨hname, hxmlns⟩, hattributes⟩ := htag
  have hopen : Leads p (openTag name attributes).toList
      ⟨⟨name, attributes, []⟩ :: p.unclosed, p.root⟩
      (content ++ ((closeTag name).toList ++ rest)) := by
    refine Leads.of_next (.opening name attributes false) ?_ (fun most hmost => ?_) rfl
    · rw [Token.toList_openTag]
      exact List.cons_ne_nil _ _
    · refine Token.next?_openTag hname hxmlns hattributes ?_ _
      have hlength := length_le_attributeTexts attributes
      rw [Token.toList_openTag] at hmost
      simp only [List.length_cons, List.length_append] at hmost
      omega
  have hclose : Leads ⟨⟨name, attributes, children.reverse⟩ :: p.unclosed, p.root⟩
      (closeTag name).toList q rest := by
    refine Leads.of_next (.closing name) ?_
      (fun most _ => Token.next?_closeTag hname most _) ?_
    · rw [Token.toList_closeTag]
      exact List.cons_ne_nil _ _
    · simpa [Progress.step, Unclosed.close] using hadd
  have hmiddle := hcontent ('/' :: (name.text.toList ++ ['>']) ++ rest)
  rw [← List.cons_append, ← Token.toList_closeTag] at hmiddle
  exact (hopen.trans hmiddle).trans hclose

theorem exists_spelled_eq_cons (h : n.isPlain = true) (depth : Nat) :
    ∃ cs, n.spelled depth = '<' :: cs := by
  cases n with
  | element name attributes children =>
    by_cases hs : ∃ s, children = [text s]
    · obtain ⟨s, rfl⟩ := hs
      rw [spelled, Token.toList_openTag]
      exact ⟨_, rfl⟩
    · rw [spelled_several fun s e => hs ⟨s, e⟩, Token.toList_openTag]
      exact ⟨_, rfl⟩
  | text => cases h
  | instruction target value =>
    cases value
    · rw [spelled]
      exact ⟨_, rfl⟩
    · rw [spelled]
      exact ⟨_, rfl⟩
  | comment =>
    rw [spelled]
    exact ⟨_, rfl⟩

/-- Nodes on lines of their own are added one after another, each with the text in front of it. -/
theorem leads_spelledAll
    (h : ∀ n ∈ ns, ∀ p q depth, n.isPlain = true → p.add (n.laid depth) = some q →
      ∀ rest, Leads p (n.spelled depth) q rest)
    (hns : arePlain ns = true) (hu : beginsText u.children = true) (depth : Nat)
    (rest : List Char) :
    Leads ⟨u :: p.unclosed, p.root⟩ (spelledAll depth ns)
        ⟨{ u with children := (laidAll depth ns).reverse ++ u.children } :: p.unclosed, p.root⟩
        rest ∧
      beginsText ((laidAll depth ns).reverse ++ u.children) = true := by
  induction ns generalizing u with
  | nil => exact ⟨Leads.nil _ _, hu⟩
  | cons n ns ih =>
    obtain ⟨hn, hns⟩ := Bool.and_eq_true_iff.1 hns
    obtain ⟨hfirst, hlater⟩ := List.forall_mem_cons.1 h
    let t : Node := text (.ofList (newline (n.column depth)))
    have hbegins : beginsText (n.laid depth :: t :: u.children) = true := by
      simp [beginsText, isText_laid hn]
    obtain ⟨hrest, hend⟩ :=
      ih (u := { u with children := n.laid depth :: t :: u.children }) hlater hns hbegins
    have hnode := hfirst ⟨{ u with children := t :: u.children } :: p.unclosed, p.root⟩
      ⟨{ u with children := n.laid depth :: t :: u.children } :: p.unclosed, p.root⟩ depth hn rfl
      (spelledAll depth ns ++ rest)
    obtain ⟨cs, hcs⟩ := exists_spelled_eq_cons hn depth
    have hbreak := leads_newline (p := p) hu (n.column depth)
      (cs ++ (spelledAll depth ns ++ rest))
    rw [← List.cons_append, ← hcs] at hbreak
    have hall := (hbreak.trans hnode).trans hrest
    have hchildren : (laidAll depth (n :: ns)).reverse ++ u.children =
        (laidAll depth ns).reverse ++ (n.laid depth :: t :: u.children) := by
      rw [laidAll]
      simp [t]
    rw [spelledAll, hchildren]
    exact ⟨hall, hend⟩

/-- Reading what a plain node is spelled as adds the node as it is laid out. -/
theorem leads_spelled (h : n.isPlain = true) (hadd : p.add (n.laid depth) = some q)
    (rest : List Char) : Leads p (n.spelled depth) q rest := by
  induction n using tree_induction generalizing p q depth rest with
  | single name attributes s =>
    rw [isPlain, Bool.and_eq_true] at h
    rw [laid] at hadd
    rw [spelled]
    refine leads_element h.1 (fun rest => ?_) hadd rest
    by_cases hs : s = ""
    · subst hs
      exact Leads.nil _ _
    · have hne : s.toList ≠ [] := fun e => hs (String.toList_inj.1 e)
      have htext := leads_text (p := p) (u := ⟨name, attributes, []⟩) hne h.2 rfl rest
      rw [String.ofList_toList] at htext
      rw [if_neg (by rwa [String.isEmpty_iff])]
      exact htext
  | several name attributes children hs ih =>
    rw [isPlain_several hs, Bool.and_eq_true] at h
    rw [laid_several hs] at hadd
    rw [spelled_several hs, List.append_assoc (openTag name attributes).toList]
    refine leads_element h.1 (fun rest => ?_) hadd rest
    obtain ⟨hall, hend⟩ := leads_spelledAll (p := p) (u := ⟨name, attributes, []⟩)
      (fun n hn p q depth hplain hadd rest => ih n hn hplain hadd rest) h.2 rfl
      (depth + 1) (newline depth ++ '<' :: rest)
    have hbreak := leads_newline (p := p)
      (u := ⟨name, attributes, (laidAll (depth + 1) children).reverse ++ []⟩) hend depth rest
    simpa using hall.trans hbreak
  | text => cases h
  | instruction target value =>
    rw [laid_instruction] at hadd
    simp only [isPlain, Bool.and_eq_true, bne_iff_ne] at h
    rw [spelled]
    refine Leads.of_next _ ?_ (fun most _ => Token.next?_instruction h.1.1 h.1.2 h.2 most rest) hadd
    cases value <;> exact List.cons_ne_nil _ _
  | comment =>
    rw [laid_comment] at hadd
    rw [spelled]
    exact Leads.of_next _ (List.cons_ne_nil _ _) (fun most _ => Token.next?_comment most rest) hadd

/-! ## Names in scope and characters that are allowed -/

theorem areAllResolved_append (scope : Scope) (ms ns : List Node) :
    areAllResolved scope (ms ++ ns) = (areAllResolved scope ms && areAllResolved scope ns) := by
  induction ms with
  | nil => rw [areAllResolved, List.nil_append, Bool.true_and]
  | cons m ms ih => rw [List.cons_append, areAllResolved, areAllResolved, ih, Bool.and_assoc]

theorem isResolved_text (scope : Scope) (s : String) : (text s).isResolved scope = true := by
  rw [isResolved]
  exact fun _ _ _ h => nomatch h

theorem areAllResolved_laidAll {scope : Scope}
    (h : ∀ n ∈ ns, (n.laid depth).isResolved scope = n.isResolved scope) :
    areAllResolved scope (laidAll depth ns) = areAllResolved scope ns := by
  induction ns with
  | nil => rw [laidAll]
  | cons n ns ih =>
    obtain ⟨hn, hns⟩ := List.forall_mem_cons.1 h
    rw [laidAll, areAllResolved, areAllResolved, areAllResolved, isResolved_text, hn, ih hns,
      Bool.true_and]

theorem isResolved_laid (n : Node) (depth : Nat) (scope : Scope) :
    (n.laid depth).isResolved scope = n.isResolved scope := by
  induction n using tree_induction generalizing depth scope with
  | single name attributes s =>
    rw [laid]
    split
    · simp [isResolved, areAllResolved]
    · rfl
  | several name attributes children hs ih =>
    rw [laid_several hs, isResolved, isResolved, areAllResolved_append,
      areAllResolved_laidAll fun n hn => ih n hn _ _]
    simp [areAllResolved, isResolved_text]
  | text s => rw [laid] <;> simp
  | instruction => rw [laid_instruction]
  | comment => rw [laid_comment]

theorem isAllowed_of_isAlpha {c : Char} (h : c.isAlpha = true) : isAllowed c = true := by
  have h : (decide (c.val ≥ 'A'.val ∧ c.val ≤ 'Z'.val) ||
      (decide (c.val ≥ 'a'.val) && decide (c.val ≤ 'z'.val))) = true := h
  simp only [Bool.or_eq_true, Bool.and_eq_true, decide_eq_true_eq, ge_iff_le,
    UInt32.le_iff_toNat_le] at h
  change (65 ≤ c.toNat ∧ c.toNat ≤ 90) ∨ (97 ≤ c.toNat ∧ c.toNat ≤ 122) at h
  have hlow : ¬ c.toNat < 0x20 := by omega
  simp only [isAllowed, if_neg hlow, Bool.and_eq_true, bne_iff_ne]
  omega

theorem all_isAllowed_word {w : List Char} (h : isPlainWord w = true) : w.all isAllowed = true :=
  List.all_eq_true.2 fun c hc => isAllowed_of_isAlpha ((isPlainWord_iff.1 h).2 c hc)

theorem all_isAllowed_name (h : name.isPlain = true) : name.text.toList.all isAllowed = true := by
  have hbase := all_isAllowed_word (Name.isPlainWord_base h)
  have hcolon : isAllowed ':' = true := by decide
  rw [Name.toList_text]
  split
  · exact hbase
  · rename_i hq
    have hqualifier := all_isAllowed_word (Name.isPlainWord_qualifier h (by simpa using hq))
    rw [List.all_append, List.all_cons, hqualifier, hcolon, hbase]
    rfl

theorem all_isAllowed_attribute {a : Attribute} (h : a.isPlain = true) :
    (attributeText a).toList.all isAllowed = true := by
  obtain ⟨hname, hvalue⟩ := Bool.and_eq_true_iff.1 h
  have hvalue : (a.value.toList.flatMap escapeValue).all isAllowed = true :=
    all_isAllowed_escapedValue (List.all_eq_true.2 fun c hc =>
      (Bool.and_eq_true_iff.1 (List.all_eq_true.1 hvalue c hc)).1)
  have hmarks : isAllowed ' ' = true ∧ isAllowed '=' = true ∧ isAllowed '"' = true := by decide
  rw [Token.toList_attributeText]
  simp [-List.all_eq_true, all_isAllowed_name hname, hvalue, hmarks]

theorem all_isAllowed_openTag (h : isPlainTag name attributes = true) :
    (openTag name attributes).toList.all isAllowed = true := by
  simp only [isPlainTag, Bool.and_eq_true] at h
  have hmarks : isAllowed '<' = true ∧ isAllowed '>' = true := by decide
  have hattributes :
      (attributes.flatMap fun a => (attributeText a).toList).all isAllowed = true := by
    rw [List.all_flatMap]
    exact List.all_eq_true.2 fun a ha => all_isAllowed_attribute (List.all_eq_true.1 h.2 a ha)
  rw [Token.toList_openTag]
  simp [-List.all_eq_true, -List.all_flatMap, all_isAllowed_name h.1.1, hattributes, hmarks]

theorem all_isAllowed_closeTag (h : isPlainTag name attributes = true) :
    (closeTag name).toList.all isAllowed = true := by
  simp only [isPlainTag, Bool.and_eq_true] at h
  have hmarks : isAllowed '<' = true ∧ isAllowed '/' = true ∧ isAllowed '>' = true := by decide
  rw [Token.toList_closeTag]
  simp [-List.all_eq_true, all_isAllowed_name h.1.1, hmarks]

theorem all_isAllowed_newline (depth : Nat) : (newline depth).all isAllowed = true :=
  List.all_eq_true.2 fun c hc =>
    (Bool.and_eq_true_iff.1 (List.all_eq_true.1 (isPlainText_newline depth) c hc)).1

theorem all_isAllowed_spelledAll
    (h : ∀ n ∈ ns, n.isPlain = true → (n.spelled depth).all isAllowed = true)
    (hns : arePlain ns = true) : (spelledAll depth ns).all isAllowed = true := by
  induction ns with
  | nil => rfl
  | cons n ns ih =>
    obtain ⟨hn, hns⟩ := Bool.and_eq_true_iff.1 hns
    obtain ⟨hfirst, hlater⟩ := List.forall_mem_cons.1 h
    rw [spelledAll, List.all_append, List.all_append, all_isAllowed_newline, hfirst hn,
      ih hlater hns]
    rfl

theorem all_isAllowed_spelled (h : n.isPlain = true) (depth : Nat) :
    (n.spelled depth).all isAllowed = true := by
  induction n using tree_induction generalizing depth with
  | single name attributes s =>
    rw [isPlain, Bool.and_eq_true] at h
    have hs : (s.toList.flatMap escapeText).all isAllowed = true :=
      all_isAllowed_escapedText (List.all_eq_true.2 fun c hc =>
        (Bool.and_eq_true_iff.1 (List.all_eq_true.1 h.2 c hc)).1)
    rw [spelled, List.all_append, List.all_append, all_isAllowed_openTag h.1, hs,
      all_isAllowed_closeTag h.1]
    rfl
  | several name attributes children hs ih =>
    rw [isPlain_several hs, Bool.and_eq_true] at h
    rw [spelled_several hs, List.all_append, List.all_append, List.all_append,
      all_isAllowed_openTag h.1,
      all_isAllowed_spelledAll (fun n hn hplain => ih n hn hplain _) h.2,
      all_isAllowed_newline, all_isAllowed_closeTag h.1]
    rfl
  | text => cases h
  | instruction target value =>
    simp only [isPlain, Bool.and_eq_true] at h
    have hmarks : isAllowed '<' = true ∧ isAllowed '?' = true ∧ isAllowed '>' = true ∧
        isAllowed ' ' = true := by decide
    rw [spelled]
    cases value with
    | none =>
      simp [-List.all_eq_true, Token.instructionText, all_isAllowed_word h.1.1, hmarks]
    | some v =>
      have hv : v.toList.all isAllowed = true := by
        simp only [Option.all_some, Token.isPlainValue, Bool.and_eq_true] at h
        exact h.2.2
      simp [-List.all_eq_true, Token.instructionText, all_isAllowed_word h.1.1, hmarks, hv]
  | comment =>
    rw [spelled]
    decide

/-! ## Documents -/

theorem afterDeclaration?_declaration (rest : List Char) :
    afterDeclaration? (afterMark ("<?xml version=\"1.0\" encoding=\"UTF-8\"?>".toList ++ rest)) =
      some rest := by
  rfl

/-- Outside of the root, white space leads nowhere. -/
theorem leads_blank (hp : p.unclosed = []) (rest : List Char) :
    Leads p ['\n'] p ('<' :: rest) := by
  refine Leads.of_next _ (List.cons_ne_nil _ _) (fun most _ => Token.next?_characters
    (List.cons_ne_nil _ _) (by decide) (by decide) most rest) ?_
  rw [Progress.step, hp]
  rfl

/-- The parts of a document in sequence make its tree. -/
theorem tree?_of_run? {fuel : Nat} (h : run? fuel {} s = some p) (hp : p.unclosed = []) :
    (Token.read? fuel s).bind tree? = p.root := by
  rw [run?] at h
  cases hread : Token.read? fuel s with
  | none =>
    rw [hread] at h
    cases h
  | some ts =>
    rw [hread] at h
    simp only [Option.bind_some] at h ⊢
    simp [tree?, h, hp, guard]

/-- **Documents.** The document of a plain tree whose names are in scope is read as the tree, laid
out on its lines. -/
theorem ofText?_document {children : List Node}
    (h : (element name attributes children).isPlain = true)
    (hscope : (element name attributes children).isResolved [] = true) :
    ofText? (document (element name attributes children)) =
      some ((element name attributes children).laid 0) := by
  let root := element name attributes children
  let q : Progress := ⟨[], some (root.laid 0)⟩
  have hroot : ∃ cs, root.laid 0 = element name attributes cs := by
    by_cases hs : ∃ s, children = [text s]
    · obtain ⟨s, rfl⟩ := hs
      exact ⟨_, by rw [laid]⟩
    · exact ⟨_, laid_several fun s e => hs ⟨s, e⟩⟩
  have hadd : Progress.add {} (root.laid 0) = some q := by
    obtain ⟨cs, hcs⟩ := hroot
    rw [hcs]
    simp [Progress.add, q, hcs]
  obtain ⟨cs, hcs⟩ := exists_spelled_eq_cons h 0
  -- the line break behind the declaration, the root, and the line break behind it
  have hlead : Leads {} (newline 0 ++ root.spelled 0) q ['\n'] := by
    have hblank := leads_blank (p := {}) rfl (cs ++ ['\n'])
    rw [← List.cons_append, ← hcs] at hblank
    exact hblank.trans (leads_spelled h hadd ['\n'])
  have htext : (document root).toList = "<?xml version=\"1.0\" encoding=\"UTF-8\"?>".toList ++
      (newline 0 ++ root.spelled 0 ++ ['\n']) := toList_document root
  have hread : (Token.ofText? (newline 0 ++ root.spelled 0 ++ ['\n'])).bind tree? =
      some (root.laid 0) := by
    obtain ⟨fuel, hfuel, hrun⟩ := hlead _ (Nat.le_refl _)
    obtain ⟨k, rfl⟩ : ∃ k, fuel = k + 1 := Nat.exists_eq_succ_of_ne_zero (by simp at hfuel; omega)
    have hend : run? (k + 1) q ['\n'] = some q := by
      have hnext : Token.read? (k + 1) ['\n'] = some [.characters ['\n']] := by
        cases k <;> rfl
      rw [run?, hnext]
      rfl
    exact tree?_of_run? (hrun.trans hend) rfl
  have hallowed : (document root).toList.all isAllowed = true := by
    rw [htext, List.all_append, List.all_append, List.all_append, all_isAllowed_newline,
      all_isAllowed_spelled h]
    decide
  rw [ofText?, hallowed, htext, afterDeclaration?_declaration]
  simp only [guard, if_true, Option.bind_eq_bind, Option.pure_def, Option.bind_some] at hread ⊢
  rw [← Option.bind_assoc, hread]
  simp [isResolved_laid, hscope, root]

end Node

end RegisterMap.Xml
