import RegisterMap.Proofs.Numeral
import RegisterMap.Proofs.Success
import RegisterMap.Proofs.Xml.Document
import RegisterMap.Svd.Content

/-!
# Contents that were written

The elements that hold values are plain nodes (`Node.IsSound`), and reading them gives the values
back, however deep in a document they are laid out. Readers go through the parts of an element one
after another: `Reads` is one part, `ReadsAll` all of them, and texts between the parts are passed
over (`ReadsAll.inside`).
-/

namespace RegisterMap

namespace Xml.Node

variable {name : Name} {attributes : List Attribute} {children ns : List Node} {n : Node}
  {tag value : String} {depth : Nat}

/-! ## Plain nodes that resolve anywhere -/

/-- The node is read as it is written, whatever namespaces are declared around it. -/
def IsSound (n : Node) : Prop := n.isPlain = true ∧ ∀ scope, n.isResolved scope = true

theorem arePlain_eq_true_iff : arePlain ns = true ↔ ∀ n ∈ ns, n.isPlain = true := by
  induction ns with
  | nil => simp [arePlain]
  | cons n ns ih => simp [arePlain, ih]

theorem areAllResolved_eq_true_iff {scope : Scope} :
    areAllResolved scope ns = true ↔ ∀ n ∈ ns, n.isResolved scope = true := by
  induction ns with
  | nil => simp [areAllResolved]
  | cons n ns ih => simp [areAllResolved, ih]

/-- Sound nodes are not a single text. -/
theorem ne_text_of_isSound (h : ∀ n ∈ ns, n.IsSound) (s : String) : ns ≠ [text s] := by
  rintro rfl
  cases (h _ List.mem_cons_self).1

/-- An element without a qualifier that has no attributes. -/
theorem isSound_group (htag : isPlainWord tag.toList = true) (h : ∀ n ∈ ns, n.IsSound) :
    (group tag ns).IsSound := by
  constructor
  · rw [group, isPlain_several (ne_text_of_isSound h), isPlainTag,
      arePlain_eq_true_iff.2 fun n hn => (h n hn).1]
    simp [Name.isPlain, htag]
  · intro scope
    rw [group, isResolved]
    simpa [areResolved, declarations, areAllResolved_eq_true_iff] using fun n hn => (h n hn).2 scope

theorem isSound_leaf (htag : isPlainWord tag.toList = true)
    (hvalue : isPlainText value.toList = true) : (leaf tag value).IsSound := by
  constructor
  · rw [leaf, isPlain, isPlainTag]
    simp [Name.isPlain, htag, hvalue]
  · intro scope
    rw [leaf, isResolved]
    simp [areResolved, declarations, areAllResolved, isResolved]

theorem isSound_instruction {target : String} {value : Option String}
    (htarget : isPlainWord target.toList = true) (hxml : target ≠ "xml")
    (hvalue : value.all (Token.isPlainValue ·.toList) = true) :
    (instruction target value).IsSound := by
  refine ⟨?_, fun scope => ?_⟩
  · simp [isPlain, htarget, hxml, hvalue]
  · rw [isResolved]
    simp

/-! ## Nodes as they are laid out -/

/-- What an element of a text holds, which is nothing for an empty text. -/
def leafContent (value : String) : List Node := if value.isEmpty then [] else [text value]

theorem laid_leaf (tag value : String) (depth : Nat) :
    (leaf tag value).laid depth = element ⟨"", tag⟩ [] (leafContent value) := by
  rw [leaf, laid, leafContent]

theorem textOf_leafContent (value : String) : textOf (leafContent value) = Text.trim value := by
  unfold leafContent
  split
  · rename_i h
    rw [String.isEmpty_iff.1 h]
    rfl
  · rfl

theorem exists_laid_element (name : Name) (attributes : List Attribute) (children : List Node)
    (depth : Nat) :
    ∃ as cs, (element name attributes children).laid depth = element name as cs := by
  by_cases h : ∃ s, children = [text s]
  · obtain ⟨s, rfl⟩ := h
    exact ⟨_, _, by rw [laid]⟩
  · exact ⟨_, _, laid_several fun s e => h ⟨s, e⟩⟩

/-- What an element of nodes holds: texts around each of them. -/
def inside (depth : Nat) (ns : List Node) : List Node :=
  laidAll (depth + 1) ns ++ [text (.ofList (newline depth))]

theorem laid_of_isSound (h : ∀ n ∈ ns, n.IsSound) (depth : Nat) :
    (element name attributes ns).laid depth = element name attributes (inside depth ns) :=
  laid_several (ne_text_of_isSound h)

end Xml.Node

namespace Svd

open Xml

/-! ## Verbatim texts -/

/-- The text is read from an element as it is written. -/
def IsVerbatim (s : String) : Prop := Node.isPlainText s.toList = true ∧ Text.IsTrimmed s.toList

instance : DecidablePred IsVerbatim := fun _ => inferInstanceAs (Decidable (_ ∧ _))

/-- The name is read from an attribute as it is written. -/
def IsReference (s : String) : Prop := (⟨⟨"", "derivedFrom"⟩, s⟩ : Attribute).isPlain = true

instance : DecidablePred IsReference := fun _ => inferInstanceAs (Decidable (_ = _))

theorem IsVerbatim.textOf {s : String} (h : IsVerbatim s) :
    Node.textOf (Node.leafContent s) = s := by
  rw [Node.textOf_leafContent, Text.trim_eq_self_iff.2 h.2]

theorem IsVerbatim.isSound {tag s : String} (h : IsVerbatim s)
    (htag : isPlainWord tag.toList = true) : (Node.leaf tag s).IsSound :=
  Node.isSound_leaf htag h.1

/-- Verbatim texts with some between them are read together as they are written, if no blanks are
at the ends. -/
theorem isVerbatim_intercalate {sep : String} {ss : List String}
    (hsep : Node.isPlainText sep.toList = true) (h : ∀ s ∈ ss, IsVerbatim s)
    (htrim : Text.IsTrimmed (sep.intercalate ss).toList) : IsVerbatim (sep.intercalate ss) := by
  refine ⟨List.all_eq_true.2 fun c hc => ?_, htrim⟩
  rw [String.toList_intercalate] at hc
  rcases Text.mem_intercalate hc with hc | ⟨x, hx, hc⟩
  · exact List.all_eq_true.1 hsep c hc
  · obtain ⟨s, hs, rfl⟩ := List.mem_map.1 hx
    exact List.all_eq_true.1 (h s hs).1 c hc

/-! ## Reading part by part -/

section Reading

variable {σ β : Type} {step : σ → Node → Except Failure σ} {depth : Nat} {s t u : σ} {n : Node}
  {ns ms : List Node}

/-- Reading the node, laid out at the depth, leads from one state to the other. -/
def Reads (step : σ → Node → Except Failure σ) (depth : Nat) (s : σ) (n : Node) (t : σ) : Prop :=
  step s (n.laid depth) = .ok t

/-- Reading the nodes one after another leads from one state to the other. -/
def ReadsAll (step : σ → Node → Except Failure σ) (depth : Nat) (s : σ) (ns : List Node) (t : σ) :
    Prop :=
  ns.foldlM (fun s n => step s (n.laid depth)) s = .ok t

theorem ReadsAll.nil (s : σ) : ReadsAll step depth s [] s := rfl

theorem ReadsAll.cons (h : Reads step depth s n t) (hs : ReadsAll step depth t ns u) :
    ReadsAll step depth s (n :: ns) u := by
  rw [ReadsAll, List.foldlM_cons, h]
  exact hs

theorem ReadsAll.append (h : ReadsAll step depth s ns t) (g : ReadsAll step depth t ms u) :
    ReadsAll step depth s (ns ++ ms) u := by
  rw [ReadsAll, List.foldlM_append, h]
  exact g

theorem Reads.singleton (h : Reads step depth s n t) : ReadsAll step depth s [n] t :=
  .cons h (.nil t)

theorem ReadsAll.ite {c : Prop} [Decidable c] (hpos : c → ReadsAll step depth s ns t)
    (hneg : ¬c → ReadsAll step depth s ms t) : ReadsAll step depth s (if c then ns else ms) t := by
  split <;> rename_i h
  · exact hpos h
  · exact hneg h

/-- The nodes of a list, one for each of its members. The state follows from the members so
far. -/
theorem ReadsAll.map {f : β → Node} (st : List β → σ) {xs : List β}
    (h : ∀ done x rest, xs = done ++ x :: rest →
      Reads step depth (st done) (f x) (st (done ++ [x]))) :
    ReadsAll step depth (st []) (xs.map f) (st xs) := by
  suffices hall : ∀ done rest, xs = done ++ rest →
      ReadsAll step depth (st done) (rest.map f) (st xs) from hall [] xs rfl
  intro done rest
  induction rest generalizing done with
  | nil =>
    rintro rfl
    rw [List.append_nil]
    exact .nil _
  | cons x rest ih =>
    intro hxs
    exact .cons (h done x rest hxs) (ih (done ++ [x]) (by simpa using hxs))

/-- Nodes of which each changes nothing. -/
theorem ReadsAll.of_forall (h : ∀ n ∈ ns, Reads step depth s n s) :
    ReadsAll step depth s ns s := by
  induction ns with
  | nil => exact .nil s
  | cons n ns ih =>
    obtain ⟨hn, hns⟩ := List.forall_mem_cons.1 h
    exact .cons hn (ih hns)

/-- An element with a text. -/
theorem Reads.leaf {tag value : String} (hvalue : IsVerbatim value)
    (h : ∀ cs, Node.textOf cs = value → step s (.element ⟨"", tag⟩ [] cs) = .ok t) :
    Reads step depth s (.leaf tag value) t := by
  rw [Reads, Node.laid_leaf]
  exact h _ hvalue.textOf

/-- An element with a text that may be missing when it is empty. -/
theorem ReadsAll.unlessEmpty {tag value : String} (h : Reads step depth s (.leaf tag value) t)
    (hempty : value = "" → s = t) : ReadsAll step depth s (unlessEmpty tag value) t := by
  rw [Svd.unlessEmpty]
  refine .ite (fun hv => ?_) fun _ => h.singleton
  rw [hempty (String.isEmpty_iff.1 hv)]
  exact .nil t

/-- An element with a text that may be missing when there is none, or when it is in force. -/
theorem ReadsAll.unlessInherited {tag : String} {value inherited : Option String}
    (h : ∀ v, value = some v → Reads step depth s (.leaf tag v) t)
    (hsame : value = none ∨ value = inherited → s = t) :
    ReadsAll step depth s (unlessInherited tag value inherited) t := by
  rw [Svd.unlessInherited]
  refine .ite (fun hv => ?_) fun _ => ?_
  · rw [hsame (.inr hv)]
    exact .nil t
  · cases value with
    | none =>
      rw [hsame (.inl rfl)]
      exact .nil t
    | some v => exact (h v rfl).singleton

/-- Texts around the parts change nothing. -/
theorem ReadsAll.inside (h : ReadsAll step (depth + 1) s ns t)
    (htext : ∀ s x, step s (.text x) = .ok s) : (Node.inside depth ns).foldlM step s = .ok t := by
  have hlaid (depth : Nat) (ns : List Node) (s : σ) :
      (Node.laidAll depth ns).foldlM step s = ns.foldlM (fun s n => step s (n.laid depth)) s := by
    induction ns generalizing s with
    | nil => rfl
    | cons n ns ih =>
      rw [Node.laidAll, List.foldlM_cons, htext]
      simp only [bind, Except.bind, List.foldlM_cons]
      split <;> simp_all
  rw [Node.inside, List.foldlM_append, hlaid, h]
  simp [bind, Except.bind, htext, pure, Except.pure]

theorem childrenOf_append (tag : String) (ns ms : List Node) :
    childrenOf tag (ns ++ ms) = childrenOf tag ns ++ childrenOf tag ms := List.filterMap_append

theorem childrenOf_cons (tag : String) (n : Node) (ns : List Node) :
    childrenOf tag (n :: ns) = childrenOf tag [n] ++ childrenOf tag ns :=
  childrenOf_append tag [n] ns

theorem childrenOf_element (tag : String) (name : Name) (attributes : List Attribute)
    (children : List Node) : childrenOf tag [.element name attributes children] =
      if name.base = tag then [children] else [] := by
  by_cases htag : name.base = tag <;> simp [childrenOf, htag]

/-- A step for the children of each element of a tag. -/
def stepChild (tag : String) (g : σ → List Node → Except Failure σ) (s : σ) :
    Node → Except Failure σ
  | .element name _ children => if name.base == tag then g s children else .ok s
  | _ => .ok s

theorem foldlM_childrenOf (tag : String) (g : σ → List Node → Except Failure σ) (s : σ)
    (ns : List Node) : (childrenOf tag ns).foldlM g s = ns.foldlM (stepChild tag g) s := by
  rw [childrenOf, List.foldlM_filterMap]
  congr 1
  funext s n
  cases n with
  | element name _ children =>
    by_cases h : (name.base == tag) = true
    · simp only [h, stepChild, if_true]
    · simp only [h, stepChild, Bool.false_eq_true, if_false]
      rfl
  | _ => rfl

end Reading

/-! ## Elements of values -/

section Elements

variable {α σ : Type} {read : List Attribute → List Node → Except Failure α} {tag : String}
  {n : Node} {ns : List Node} {a : α} {source : Option String}

/-- An element that may be derived from another. -/
theorem isSound_derivable (htag : isPlainWord tag.toList = true)
    (hsource : ∀ s ∈ source, IsReference s) (h : ∀ n ∈ ns, n.IsSound) :
    (derivable tag source ns).IsSound := by
  cases source with
  | none => exact Node.isSound_group htag h
  | some s =>
    have hs : (⟨⟨"", "derivedFrom"⟩, s⟩ : Attribute).isPlain = true := hsource s rfl
    constructor
    · rw [derivable, Node.isPlain_several (Node.ne_text_of_isSound h), Node.isPlainTag,
        Node.arePlain_eq_true_iff.2 fun n hn => (h n hn).1]
      simp [Name.isPlain, htag, hs]
    · intro scope
      rw [derivable, Node.isResolved]
      simpa [Node.areResolved, Node.declarations, Node.isDeclaration, Node.spaceOf?,
        Node.areAllResolved_eq_true_iff] using fun n hn => (h n hn).2 scope

theorem attribute?_derivedFrom (source : Option String) :
    Node.attribute? "derivedFrom" (source.map fun s => ⟨⟨"", "derivedFrom"⟩, s⟩).toList =
      source := by
  cases source <;> simp [Node.attribute?]

/-- The node is sound and, laid out anywhere, an element of the tag whose attributes and children
are read as the value. -/
def Yields (read : List Attribute → List Node → Except Failure α) (tag : String) (n : Node)
    (a : α) : Prop :=
  n.IsSound ∧ ∀ depth, ∃ as cs, n.laid depth = .element ⟨"", tag⟩ as cs ∧ read as cs = .ok a

theorem Yields.derivable (htag : isPlainWord tag.toList = true)
    (hsource : ∀ s ∈ source, IsReference s) (hsound : ∀ n ∈ ns, n.IsSound)
    (h : ∀ depth, read (source.map fun s => ⟨⟨"", "derivedFrom"⟩, s⟩).toList
      (Node.inside depth ns) = .ok a) : Yields read tag (derivable tag source ns) a :=
  ⟨isSound_derivable htag hsource hsound,
    fun depth => ⟨_, _, Node.laid_of_isSound hsound depth, h depth⟩⟩

/-- An element of its own has no attributes. -/
theorem Yields.own (htag : isPlainWord tag.toList = true) (hsound : ∀ n ∈ ns, n.IsSound)
    (h : ∀ depth, read [] (Node.inside depth ns) = .ok a) : Yields read tag (.group tag ns) a :=
  ⟨Node.isSound_group htag hsound,
    fun depth => ⟨_, _, Node.laid_of_isSound hsound depth, h depth⟩⟩

theorem Yields.group {read : List Node → Except Failure α}
    (htag : isPlainWord tag.toList = true) (hsound : ∀ n ∈ ns, n.IsSound)
    (h : ∀ depth, read (Node.inside depth ns) = .ok a) :
    Yields (fun _ => read) tag (.group tag ns) a :=
  .own htag hsound h

theorem Yields.imp {β : Type} {read' : List Attribute → List Node → Except Failure β} {b : β}
    (h : Yields read tag n a) (himp : ∀ as cs, read as cs = .ok a → read' as cs = .ok b) :
    Yields read' tag n b :=
  ⟨h.1, fun depth =>
    let ⟨as, cs, hlaid, hread⟩ := h.2 depth
    ⟨as, cs, hlaid, himp as cs hread⟩⟩

/-- A reader that makes use of the value of an element. -/
theorem Yields.reads {step : σ → Node → Except Failure σ} {depth : Nat} {s t : σ}
    (h : Yields read tag n a)
    (hstep : ∀ as cs, read as cs = .ok a → step s (.element ⟨"", tag⟩ as cs) = .ok t) :
    Reads step depth s n t := by
  obtain ⟨as, cs, hlaid, hread⟩ := h.2 depth
  rw [Reads, hlaid]
  exact hstep as cs hread

/-- The elements of a tag, laid out, have the children that are read as the values. -/
theorem forall₂_childrenOf {β : Type} {read : List Node → Except Failure α} {f : β → Node}
    {g : β → α} {xs : List β} (h : ∀ x ∈ xs, Yields (fun _ => read) tag (f x) (g x))
    (depth : Nat) :
    List.Forall₂ (fun cs a => read cs = .ok a) (childrenOf tag (Node.inside depth (xs.map f)))
      (xs.map g) := by
  have hall (depth : Nat) : List.Forall₂ (fun cs a => read cs = .ok a)
      (childrenOf tag (Node.laidAll depth (xs.map f))) (xs.map g) := by
    induction xs with
    | nil => exact .nil
    | cons x xs ih =>
      obtain ⟨hx, hxs⟩ := List.forall_mem_cons.1 h
      obtain ⟨as, cs, hlaid, hread⟩ := hx.2 depth
      simp only [List.map_cons, Node.laidAll, childrenOf, List.filterMap_cons, hlaid,
        beq_self_eq_true, if_true]
      exact .cons hread (ih hxs)
  have hlast : childrenOf tag [Node.text (.ofList (Node.newline depth))] = [] := rfl
  rw [Node.inside, childrenOf, List.filterMap_append, ← childrenOf, ← childrenOf, hlast,
    List.append_nil]
  exact hall (depth + 1)

end Elements

/-! ## Numbers and words -/

section Values

variable {tag : String} {n : Nat}

theorem isVerbatim_of_forall {s : String} (allowed : List Char)
    (hplain : Node.isPlainText allowed = true) (hblank : allowed.all (!Text.isBlank ·) = true)
    (h : ∀ c ∈ s.toList, c ∈ allowed) : IsVerbatim s :=
  ⟨List.all_eq_true.2 fun c hc => List.all_eq_true.1 hplain c (h c hc),
    Text.isTrimmed_of_forall fun c hc => Text.eq_false_of_all hblank (h c hc)⟩

theorem isVerbatim_hex (n : Nat) : IsVerbatim s!"0x{Text.hex n}" :=
  isVerbatim_of_forall "0123456789ABCDEFx".toList (by decide) (by decide) fun _ => Numeral.mem_hex

theorem isVerbatim_toString (n : Nat) : IsVerbatim (toString n) :=
  isVerbatim_of_forall "0123456789-".toList (by decide) (by decide) fun _ => Numeral.mem_toString

theorem isVerbatim_toString_int (i : Int) : IsVerbatim (toString i) :=
  isVerbatim_of_forall "0123456789-".toList (by decide) (by decide) fun _ =>
    Numeral.mem_toString_int

theorem number_hex (hn : n < Bits.limit 64) :
    number tag (Node.leafContent s!"0x{Text.hex n}") = .ok n := by
  rw [number, (isVerbatim_hex n).textOf, Numeral.number_hex hn, within_ok]

theorem number_decimal (hn : n < Bits.limit 64) :
    number tag (Node.leafContent (toString n)) = .ok n := by
  rw [number, (isVerbatim_toString n).textOf, Numeral.number_toString hn, within_ok]

theorem number32_decimal (hn : n < Bits.limit 32) :
    number32 tag (Node.leafContent (toString n)) = .ok n := by
  rw [number32, number_decimal (Nat.lt_of_lt_of_le hn (Bits.limit_le (by decide)))]
  exact Numeral.narrow_eq_ok hn

theorem attributeNumber32_toString (hn : n < Bits.limit 32) :
    attributeNumber32 (toString n) = .ok n := by
  rw [attributeNumber32,
    Numeral.number_toString (Nat.lt_of_lt_of_le hn (Bits.limit_le (by decide)))]
  exact Numeral.narrow_eq_ok hn

theorem isVerbatim_name : ∀ a : Access, IsVerbatim a.name := by
  intro a
  cases a <;> decide

theorem access_name (a : Access) : access (Node.leafContent a.name) = .ok a := by
  have hname : Access.ofText? a.name = some a := by
    rw [Access.ofText?, Text.trim_eq_self_iff.2 (isVerbatim_name a).2, Access.ofName?_name]
  rw [access, (isVerbatim_name a).textOf, hname]

theorem boolean_truth (b : Bool) :
    boolean (Node.leafContent (if b then "true" else "false")) = .ok b := by
  cases b <;> rfl

section Reads

variable {σ : Type} {step : σ → Node → Except Failure σ} {depth : Nat} {s t : σ}

theorem Reads.hex (hn : n < Bits.limit 64)
    (h : ∀ cs, number tag cs = .ok n → step s (.element ⟨"", tag⟩ [] cs) = .ok t) :
    Reads step depth s (hex tag n) t := by
  rw [Reads, Svd.hex, Node.laid_leaf]
  exact h _ (number_hex hn)

theorem Reads.decimal (hn : n < Bits.limit 64)
    (h : ∀ cs, number tag cs = .ok n → step s (.element ⟨"", tag⟩ [] cs) = .ok t) :
    Reads step depth s (decimal tag n) t := by
  rw [Reads, Svd.decimal, Node.laid_leaf]
  exact h _ (number_decimal hn)

theorem Reads.decimal32 (hn : n < Bits.limit 32)
    (h : ∀ cs, number32 tag cs = .ok n → step s (.element ⟨"", tag⟩ [] cs) = .ok t) :
    Reads step depth s (Svd.decimal tag n) t := by
  rw [Reads, Svd.decimal, Node.laid_leaf]
  exact h _ (number32_decimal hn)

theorem Reads.access {a : Access}
    (h : ∀ cs, access cs = .ok a → step s (.element ⟨"", tag⟩ [] cs) = .ok t) :
    Reads step depth s (.leaf tag a.name) t := by
  rw [Reads, Node.laid_leaf]
  exact h _ (access_name a)

theorem Reads.truth {b : Bool}
    (h : ∀ cs, boolean cs = .ok b → step s (.element ⟨"", tag⟩ [] cs) = .ok t) :
    Reads step depth s (truth tag b) t := by
  rw [Reads, Svd.truth, Node.laid_leaf]
  exact h _ (boolean_truth b)

end Reads

theorem isSound_hex (htag : isPlainWord tag.toList = true) (n : Nat) : (hex tag n).IsSound :=
  (isVerbatim_hex n).isSound htag

theorem isSound_decimal (htag : isPlainWord tag.toList = true) (n : Nat) :
    (decimal tag n).IsSound :=
  (isVerbatim_toString n).isSound htag

theorem isSound_truth (htag : isPlainWord tag.toList = true) (b : Bool) : (truth tag b).IsSound :=
  Node.isSound_leaf htag (by cases b <;> decide)

theorem isSound_unlessEmpty {value : String} (htag : isPlainWord tag.toList = true)
    (hvalue : IsVerbatim value) : ∀ n ∈ unlessEmpty tag value, n.IsSound := by
  intro n hn
  rw [unlessEmpty] at hn
  split at hn
  · cases hn
  · rw [List.mem_singleton.1 hn]
    exact hvalue.isSound htag

theorem isSound_unlessInherited {value inherited : Option String}
    (htag : isPlainWord tag.toList = true) (hvalue : ∀ v ∈ value, IsVerbatim v) :
    ∀ n ∈ unlessInherited tag value inherited, n.IsSound := by
  intro n hn
  rw [unlessInherited] at hn
  split at hn
  · cases hn
  · obtain ⟨v, hv, rfl⟩ := Option.map_eq_some_iff.1 (Option.mem_toList.1 hn)
    exact (hvalue v hv).isSound htag

end Values

/-! ## Defaults -/

/-- The numbers have words to be held in. -/
def Defaults.FitsWords (d : Defaults) : Prop :=
  d.width < Bits.limit 32 ∧ d.resetValue < Bits.limit 64 ∧ d.resetMask < Bits.limit 64

instance : DecidablePred Defaults.FitsWords := fun _ => inferInstanceAs (Decidable (_ ∧ _))

theorem isSound_defaults (d : Defaults) (inForce : Option Defaults) :
    ∀ n ∈ d.toSvd inForce, n.IsSound := by
  intro n hn
  simp only [Defaults.toSvd, List.mem_append, List.mem_ite_nil_left, List.mem_singleton] at hn
  rcases hn with ((⟨-, rfl⟩ | ⟨-, rfl⟩) | ⟨-, rfl⟩) | ⟨-, rfl⟩
  · exact isSound_decimal (by decide) _
  · exact (isVerbatim_name _).isSound (by decide)
  · exact isSound_hex (by decide) _
  · exact isSound_hex (by decide) _

/-- A reader that takes over each of the defaults takes over all of them, also when those that are
in force are left out. -/
theorem ReadsAll.defaults {σ : Type} {step : σ → Node → Except Failure σ} {depth : Nat}
    (put : Defaults → σ) {d e : Defaults} {inForce : Option Defaults}
    (hsize : ∀ e : Defaults,
      Reads step depth (put e) (decimal "size" d.width) (put { e with width := d.width }))
    (haccess : ∀ e : Defaults,
      Reads step depth (put e) (.leaf "access" d.access.name) (put { e with access := d.access }))
    (hvalue : ∀ e : Defaults, Reads step depth (put e) (hex "resetValue" d.resetValue)
      (put { e with resetValue := d.resetValue }))
    (hmask : ∀ e : Defaults, Reads step depth (put e) (hex "resetMask" d.resetMask)
      (put { e with resetMask := d.resetMask }))
    (hforce : ∀ f ∈ inForce, f = e) : ReadsAll step depth (put e) (d.toSvd inForce) (put d) := by
  have hone {same : Defaults → Bool} {n : Node} {e₁ e₂ : Defaults}
      (hread : Reads step depth (put e₁) n (put e₂)) (hsame : same e = true → e₁ = e₂) :
      ReadsAll step depth (put e₁) (if inForce.any same then [] else [n]) (put e₂) := by
    refine .ite (fun h => ?_) fun _ => hread.singleton
    obtain ⟨f, hf, hsome⟩ := (Option.any_eq_true _ _).1 h
    rw [hsame (hforce f hf ▸ hsome)]
    exact .nil _
  rw [Defaults.toSvd]
  refine .append (.append (.append (hone (hsize e) fun h => ?_) (hone (haccess _) fun h => ?_))
    (hone (hvalue _) fun h => ?_)) (hone (hmask _) fun h => ?_)
  · rw [← beq_iff_eq.1 h]
  · rw [← beq_iff_eq.1 h]
  · rw [← beq_iff_eq.1 h]
  · rw [beq_iff_eq.1 h]

end Svd

end RegisterMap
