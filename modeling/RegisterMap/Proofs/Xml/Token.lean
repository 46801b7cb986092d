import Mathlib.Data.List.TakeDrop
import RegisterMap.Proofs.Placeholder
import RegisterMap.Proofs.Text
import RegisterMap.Proofs.Xml.Escape
import RegisterMap.Xml.Token

/-!
# Tokens of what is written

Each part of a document that the writer spells is read as one token, whatever follows it
(`Token.next?_openTag`, `next?_closeTag`, `next?_instruction`, `next?_comment`); character data is
read up to the next bracket (`next?_characters`).
-/

namespace RegisterMap.Xml

/-! ## Plain names and attributes -/

/-- The characters of a word of ASCII letters. -/
def isPlainWord (w : List Char) : Bool := !w.isEmpty && w.all Char.isAlpha

namespace Name

/-- A name of ASCII letters, perhaps with a qualifier of such letters. -/
def isPlain (n : Name) : Bool :=
  isPlainWord n.base.toList && (n.qualifier.isEmpty || isPlainWord n.qualifier.toList)

end Name

/-- An attribute of a plain name, whose value has no white space but spaces. -/
def Attribute.isPlain (a : Attribute) : Bool :=
  a.name.isPlain && a.value.toList.all fun c => isAllowed c && (!isSpace c || c == ' ')

variable {c : Char} {w s rest : List Char} {n : Name}

theorem inName_of_isAlpha (h : c.isAlpha = true) : inName c = true := by
  simp [inName, startsName, h]

theorem startsName_of_isAlpha (h : c.isAlpha = true) : startsName c = true := by
  simp [startsName, h]

theorem isPlainWord_iff : isPlainWord w = true ↔ w ≠ [] ∧ ∀ c ∈ w, c.isAlpha = true := by
  simp [isPlainWord]

theorem isWord_of_isPlainWord (h : isPlainWord w = true) : Token.isWord w = true := by
  obtain ⟨hne, hall⟩ := isPlainWord_iff.1 h
  cases w with
  | nil => exact absurd rfl hne
  | cons c cs => exact startsName_of_isAlpha (hall c List.mem_cons_self)

theorem not_mem_of_isPlainWord (h : isPlainWord w = true) (hc : c.isAlpha = false) : c ∉ w := by
  intro hm
  rw [(isPlainWord_iff.1 h).2 c hm] at hc
  cases hc

theorem span_inName (h : ∀ c ∈ w, inName c = true) (hc : inName c = false) (rest : List Char) :
    (w ++ c :: rest).span inName = (w, c :: rest) := by
  rw [List.span_eq_takeWhile_dropWhile, List.takeWhile_append_of_pos h,
    List.dropWhile_append_of_pos h]
  simp [hc]

namespace Name

theorem toList_text (n : Name) :
    n.text.toList =
      if n.qualifier.isEmpty then n.base.toList
      else n.qualifier.toList ++ ':' :: n.base.toList := by
  unfold text
  split <;> simp

theorem isPlainWord_base (h : n.isPlain = true) : isPlainWord n.base.toList = true :=
  (Bool.and_eq_true_iff.1 h).1

theorem isPlainWord_qualifier (h : n.isPlain = true) (hq : n.qualifier.isEmpty = false) :
    isPlainWord n.qualifier.toList = true := by
  simpa [hq] using (Bool.and_eq_true_iff.1 h).2

theorem inName_of_mem_text (h : n.isPlain = true) : ∀ c ∈ n.text.toList, inName c = true := by
  have hbase := (isPlainWord_iff.1 (isPlainWord_base h)).2
  intro c hc
  rw [toList_text] at hc
  split at hc
  · exact inName_of_isAlpha (hbase c hc)
  · rename_i hq
    have hqualifier := (isPlainWord_iff.1 (isPlainWord_qualifier h (by simpa using hq))).2
    rcases List.mem_append.1 hc with hc | hc
    · exact inName_of_isAlpha (hqualifier c hc)
    · rcases List.mem_cons.1 hc with rfl | hc
      · decide
      · exact inName_of_isAlpha (hbase c hc)

/-- A plain name starts with a letter. -/
theorem exists_text_eq_cons (h : n.isPlain = true) :
    ∃ c cs, n.text.toList = c :: cs ∧ c.isAlpha = true := by
  have hcons {w : List Char} (hw : isPlainWord w = true) : ∃ c cs, w = c :: cs ∧ c.isAlpha := by
    obtain ⟨hne, hall⟩ := isPlainWord_iff.1 hw
    obtain ⟨c, cs, rfl⟩ := List.exists_cons_of_ne_nil hne
    exact ⟨c, cs, rfl, hall c List.mem_cons_self⟩
  rw [toList_text]
  split
  · exact hcons (isPlainWord_base h)
  · rename_i hq
    obtain ⟨c, cs, hcs, hc⟩ := hcons (isPlainWord_qualifier h (by simpa using hq))
    exact ⟨c, cs ++ ':' :: n.base.toList, by rw [hcs, List.cons_append], hc⟩

end Name

namespace Token

/-! ## Names and attributes -/

theorem name?_text (h : n.isPlain = true) (hc : inName c = false) (rest : List Char) :
    name? (n.text.toList ++ c :: rest) = some (n, c :: rest) := by
  have hbase := Name.isPlainWord_base h
  have hcolon : ':' ∉ n.base.toList := not_mem_of_isPlainWord hbase (by decide)
  rw [name?, span_inName (Name.inName_of_mem_text h) hc, Name.toList_text]
  cases hq : n.qualifier.isEmpty with
  | true =>
    rw [if_pos rfl]
    simp only [Text.parts_of_not_mem hcolon]
    have hn : n = ⟨"", n.base⟩ := by rw [← String.isEmpty_iff.1 hq]
    simp only [isWord_of_isPlainWord hbase, if_true, String.ofList_toList]
    rw [← hn]
  | false =>
    have hqualifier := Name.isPlainWord_qualifier h hq
    have hcolon' : ':' ∉ n.qualifier.toList := not_mem_of_isPlainWord hqualifier (by decide)
    rw [if_neg Bool.false_ne_true]
    simp [Text.parts_append hcolon', Text.parts_of_not_mem hcolon, isWord_of_isPlainWord hbase,
      isWord_of_isPlainWord hqualifier]

theorem upTo?_append (mark : List Char) (hmark : mark = c :: w) (h : c ∉ s) (rest : List Char) :
    upTo? mark (s ++ mark ++ rest) = some (s, rest) := by
  subst hmark
  induction s with
  | nil => simp [upTo?]
  | cons d ds ih =>
    rw [List.mem_cons, not_or] at h
    rw [List.cons_append, List.cons_append, upTo?, ih h.2]
    simp [h.1]

theorem skip_cons_of_not_isSpace (h : isSpace c = false) : skip (c :: rest) = c :: rest := by
  simp [skip, h]

theorem not_isSpace_of_isAlpha (h : c.isAlpha = true) : isSpace c = false := by
  simp only [isSpace, Bool.or_eq_false_iff, beq_eq_false_iff_ne]
  refine ⟨⟨⟨?_, ?_⟩, ?_⟩, ?_⟩ <;> rintro rfl <;> exact absurd h (by decide)

theorem toList_attributeText (a : Attribute) :
    (Node.attributeText a).toList =
      ' ' :: (a.name.text.toList ++
        '=' :: '"' :: (a.value.toList.flatMap escapeValue ++ ['"'])) := by
  simp [Node.attributeText, ToString.toString]

/-- An attribute is read up to the quote that ends its value. -/
theorem attribute?_attributeText {a : Attribute} (h : a.isPlain = true) (rest : List Char) :
    ∃ c after, (Node.attributeText a).toList ++ rest = ' ' :: c :: after ∧ c.isAlpha = true ∧
      attribute? (c :: after) = some (a, rest) := by
  obtain ⟨hname, hvalue⟩ := Bool.and_eq_true_iff.1 h
  obtain ⟨c, cs, hcs, hc⟩ := Name.exists_text_eq_cons hname
  let value := a.value.toList.flatMap escapeValue
  refine ⟨c, cs ++ '=' :: '"' :: (value ++ '"' :: rest), ?_, hc, ?_⟩
  · simp [toList_attributeText, hcs, value]
  · rw [← List.cons_append, ← hcs]
    have hquote : '"' ∉ value := not_mem_escapedValue (.inr rfl)
    have hbracket : '<' ∉ value := not_mem_escapedValue (.inl rfl)
    have hspaces : ∀ c ∈ a.value.toList, isSpace c = true → c = ' ' := by
      intro c hc hspace
      have hplain := List.all_eq_true.1 hvalue c hc
      rw [hspace] at hplain
      simpa using (Bool.and_eq_true_iff.1 hplain).2
    have hup := upTo?_append ['"'] rfl hquote rest
    rw [List.append_assoc, List.singleton_append] at hup
    have hassign : assignment? (a.name.text.toList ++ '=' :: '"' :: (value ++ '"' :: rest)) =
        some (a.name, value, rest) := by
      rw [assignment?, name?_text hname (by decide)]
      simp [skip, isSpace, hup, hbracket, guard]
    rw [attribute?, hassign]
    simp [value, value?_escape hspaces]

theorem attributes?_attributeTexts {as : List Attribute} {most : Nat}
    (h : as.all Attribute.isPlain = true) (hmost : as.length < most) (rest : List Char) :
    attributes? most ((as.flatMap fun a => (Node.attributeText a).toList) ++ '>' :: rest) =
      some (as, false, rest) := by
  induction as generalizing most with
  | nil =>
    obtain ⟨most, rfl⟩ : ∃ k, most = k + 1 := Nat.exists_eq_succ_of_ne_zero (by omega)
    rw [List.flatMap_nil, List.nil_append]
    unfold attributes?
    rw [skip_cons_of_not_isSpace (by decide)]
    rfl
  | cons a as ih =>
    obtain ⟨most, rfl⟩ : ∃ k, most = k + 1 := Nat.exists_eq_succ_of_ne_zero (by omega)
    obtain ⟨ha, has⟩ := Bool.and_eq_true_iff.1 h
    rw [List.length_cons] at hmost
    obtain ⟨c, after, htext, hc, hread⟩ := attribute?_attributeText ha
      ((as.flatMap fun a => (Node.attributeText a).toList) ++ '>' :: rest)
    have hskip : skip (' ' :: c :: after) = c :: after := by
      have hspace : skip (' ' :: c :: after) = skip (c :: after) := by simp [skip, isSpace]
      rw [hspace, skip_cons_of_not_isSpace (not_isSpace_of_isAlpha hc)]
    rw [List.flatMap_cons, List.append_assoc, htext]
    unfold attributes?
    rw [hskip]
    split
    · rename_i heq
      cases heq
      exact absurd hc (by decide)
    · rename_i heq
      cases heq
      exact absurd hc (by decide)
    · rw [hread]
      simp [ih has (Nat.lt_of_succ_lt_succ hmost), isSpace]

/-! ## Parts of a document -/

theorem toList_openTag (n : Name) (as : List Attribute) :
    (Node.openTag n as).toList =
      '<' :: (n.text.toList ++ ((as.flatMap fun a => (Node.attributeText a).toList) ++ ['>'])) := by
  simp [Node.openTag, ToString.toString, List.flatMap_map]

theorem toList_closeTag (n : Name) :
    (Node.closeTag n).toList = '<' :: '/' :: (n.text.toList ++ ['>']) := by
  simp [Node.closeTag, ToString.toString]

/-- Attributes begin with a space, the end of a tag with a bracket. -/
theorem exists_head_attributeTexts (as : List Attribute) (rest : List Char) :
    ∃ c cs, (as.flatMap fun a => (Node.attributeText a).toList) ++ '>' :: rest = c :: cs ∧
      inName c = false := by
  cases as with
  | nil => exact ⟨'>', rest, rfl, by decide⟩
  | cons a as => exact ⟨' ', _, by rw [List.flatMap_cons, toList_attributeText]; rfl, by decide⟩

/-- A tag whose name starts with a letter is an opening one. -/
theorem next?_letter (hc : c.isAlpha = true) (most : Nat) (rest : List Char) :
    next? most ('<' :: c :: rest) = opening? most (c :: rest) := by
  rw [next?.eq_def]
  split
  · rename_i heq
    cases heq
    exact absurd hc (by decide)
  · rename_i heq
    cases heq
    exact absurd hc (by decide)
  · rename_i heq
    cases heq
    exact absurd hc (by decide)
  · rename_i heq
    cases heq
    exact absurd hc (by decide)
  · rename_i heq
    cases heq
    rfl
  · rename_i hnone
    exact absurd rfl (hnone _)

theorem next?_openTag {as : List Attribute} {most : Nat} (hn : n.isPlain = true)
    (hxmlns : n.qualifier ≠ "xmlns") (has : as.all Attribute.isPlain = true)
    (hmost : as.length < most) (rest : List Char) :
    next? most ((Node.openTag n as).toList ++ rest) = some (.opening n as false, rest) := by
  obtain ⟨c, cs, hcs, hc⟩ := Name.exists_text_eq_cons hn
  have hopen : opening? most (n.text.toList ++
      ((as.flatMap fun a => (Node.attributeText a).toList) ++ '>' :: rest)) =
        some (.opening n as false, rest) := by
    obtain ⟨d, ds, hds, hd⟩ := exists_head_attributeTexts as rest
    rw [opening?, hds, name?_text hn hd, ← hds]
    simp [guard, hxmlns, attributes?_attributeTexts has hmost]
  have htext : (Node.openTag n as).toList ++ rest = '<' :: (n.text.toList ++
      ((as.flatMap fun a => (Node.attributeText a).toList) ++ '>' :: rest)) := by
    simp [toList_openTag]
  rw [htext, ← hopen, hcs, List.cons_append, next?_letter hc]

theorem next?_closeTag (hn : n.isPlain = true) (most : Nat) (rest : List Char) :
    next? most ((Node.closeTag n).toList ++ rest) = some (.closing n, rest) := by
  have htext : (Node.closeTag n).toList ++ rest =
      '<' :: '/' :: (n.text.toList ++ '>' :: rest) := by simp [toList_closeTag]
  rw [htext, next?, closing?, name?_text hn (by decide)]
  simp [skip, isSpace]

/-- An instruction is read when its target is no declaration. -/
theorem instruction?_eq {target : List Char} (value rest : List Char)
    (ht : isPlainWord target = true) (hxml : target ≠ "xml".toList) (hc : inName c = false)
    (hquery : '?' ∉ value)
    (hskip : skip (c :: s) = value ++ "?>".toList ++ rest) :
    instruction? (target ++ c :: s) =
      some (.instruction (.ofList target) (if value.isEmpty then none else some (.ofList value)),
        rest) := by
  obtain ⟨hne, hall⟩ := isPlainWord_iff.1 ht
  have hdeclaration : "xml ".toList.isPrefixOf (target ++ c :: s) = false := by
    refine Bool.eq_false_iff.2 fun hp => hxml ?_
    -- the target is the word with which the text starts
    have halpha : c.isAlpha = false := Bool.eq_false_iff.2 fun h => by
      rw [inName_of_isAlpha h] at hc
      cases hc
    have hword : (target ++ c :: s).takeWhile Char.isAlpha = target := by
      rw [List.takeWhile_append_of_pos hall]
      simp [halpha]
    obtain ⟨t, ht⟩ := List.isPrefixOf_iff_prefix.1 hp
    rw [← ht] at hword
    exact hword.symm
  have hspan := span_inName (fun c hc => inName_of_isAlpha (hall c hc)) hc s
  have hup := upTo?_append "?>".toList rfl hquery rest
  rw [instruction?, hdeclaration]
  simp only [guard, Bool.not_false, if_true, hspan, isWord_of_isPlainWord ht, hskip]
  change (upTo? _ _ >>= _) = _
  rw [hup]
  rfl

/-- A value of an instruction that is read as it is written. -/
def isPlainValue (v : List Char) : Bool :=
  v.head?.any (!isSpace ·) && !v.contains '?' && v.all isAllowed

/-- The characters of an instruction. -/
def instructionText (target : String) : Option String → List Char
  | none => "<?".toList ++ (target.toList ++ "?>".toList)
  | some value => "<?".toList ++ (target.toList ++ ' ' :: (value.toList ++ "?>".toList))

theorem next?_instruction {target : String} {value : Option String}
    (ht : isPlainWord target.toList = true) (hxml : target ≠ "xml")
    (hvalue : value.all (isPlainValue ·.toList) = true) (most : Nat) (rest : List Char) :
    next? most (instructionText target value ++ rest) =
      some (.instruction target value, rest) := by
  have hxml' : target.toList ≠ "xml".toList := fun e => hxml (String.toList_inj.1 e)
  cases value with
  | none =>
    have hread := instruction?_eq [] rest (s := '>' :: rest) ht hxml'
      (by decide : inName '?' = false) List.not_mem_nil rfl
    rw [String.ofList_toList] at hread
    have htext : instructionText target none ++ rest =
        '<' :: '?' :: (target.toList ++ '?' :: '>' :: rest) := by simp [instructionText]
    rw [htext, next?, hread]
    rfl
  | some v =>
    simp only [Option.all_some, isPlainValue, Bool.and_eq_true, Bool.not_eq_true'] at hvalue
    obtain ⟨⟨hhead, hquery⟩, -⟩ := hvalue
    obtain ⟨x, xs, hxs⟩ : ∃ x xs, v.toList = x :: xs := by
      cases hv : v.toList with
      | nil => rw [hv] at hhead; cases hhead
      | cons x xs => exact ⟨x, xs, rfl⟩
    have hskip : skip (' ' :: (v.toList ++ "?>".toList ++ rest)) =
        v.toList ++ "?>".toList ++ rest := by
      have hx : isSpace x = false := by simpa [hxs] using hhead
      have hspace : skip (' ' :: (v.toList ++ "?>".toList ++ rest)) =
          skip (v.toList ++ "?>".toList ++ rest) := by simp [skip, isSpace]
      rw [hspace, hxs, List.cons_append, List.cons_append, skip_cons_of_not_isSpace hx]
    have hread := instruction?_eq v.toList rest ht hxml' (by decide : inName ' ' = false)
      (by simpa using hquery) hskip
    have htext : instructionText target (some v) ++ rest =
        '<' :: '?' :: (target.toList ++ ' ' :: (v.toList ++ "?>".toList ++ rest)) := by
      simp [instructionText]
    have hsome : v.toList.isEmpty = false := by rw [hxs]; rfl
    rw [String.ofList_toList, String.ofList_toList, hsome] at hread
    rw [htext, next?, hread]
    simp

/-- The characters of a comment. -/
def commentText : List Char := "<!-- -->".toList

theorem next?_comment (most : Nat) (rest : List Char) :
    next? most (commentText ++ rest) = some (.comment, rest) := by
  rfl

theorem next?_characters {content : List Char} (hne : content ≠ []) (hopen : '<' ∉ content)
    (hclose : '>' ∉ content) (most : Nat) (rest : List Char) :
    next? most (content ++ '<' :: rest) = some (.characters content, '<' :: rest) := by
  have hbefore : ∀ x ∈ content, (x != '<') = true := fun x hx =>
    bne_iff_ne.2 fun e => hopen (e ▸ hx)
  have hspan : (content ++ '<' :: rest).span (· != '<') = (content, '<' :: rest) := by
    rw [List.span_eq_takeWhile_dropWhile, List.takeWhile_append_of_pos hbefore,
      List.dropWhile_append_of_pos hbefore]
    simp
  have hmark : Text.occurs "]]>".toList content = false := by
    refine Bool.eq_false_iff.2 fun h => hclose ?_
    exact ((Placeholder.occurs_iff_infix _ _).1 h).subset (by decide)
  obtain ⟨c, cs, rfl⟩ := List.exists_cons_of_ne_nil hne
  have hc : c ≠ '<' := fun e => hopen (e ▸ List.mem_cons_self)
  have hread : next? most (c :: cs ++ '<' :: rest) = characters? (c :: cs ++ '<' :: rest) := by
    rw [next?.eq_def]
    split <;> rename_i heq <;> first | exact absurd (List.cons.inj heq).1 hc | rfl
  rw [hread, characters?, hspan]
  simp only [hmark]
  rfl

end Token

end RegisterMap.Xml
