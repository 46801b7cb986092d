import Mathlib.Data.List.TakeWhile
import RegisterMap.Proofs.Svd.Content
import RegisterMap.Proofs.Vectors
import RegisterMap.Svd.Device

/-!
# Numbers of interrupts

Interrupts that no peripheral owns are listed one after another, and one without a number of its
own follows the one before it. Reading stops at the first that does not have a larger number than
the one before it; until then, those that are no exceptions of the core make the vector table
(`Device.addNumbered_eq`). So nothing but the numbers decides whether a list is read
(`Device.stepExtension_numbering`), and no two entries can meet in the table.
-/

namespace RegisterMap

open Svd Xml

/-! ## Elements of interrupts -/

namespace Interrupt

/-- The texts of the elements with the tag. -/
def textsOf (tag : String) (nodes : List Node) : List String :=
  (childrenOf tag nodes).map Node.textOf

/-- The text is a number of 32 bits with a sign. -/
def SpellsIndex (s : String) : Prop :=
  ∃ i, Numeral.signed s = .ok i ∧ -(Bits.limit 31 : Int) ≤ i ∧ i < Bits.limit 31

/-- The part has a meaning in the element of an interrupt, or none anywhere. -/
def IsKnown (n : Node) : Prop :=
  ∀ tag ∈ n.tag?, tag ∈ ["name", "description", "value"] ∨ tag ∈ ignoredTags

/-- The number that the element gives to the interrupt. -/
def ownNumber? (nodes : List Node) : Option Int :=
  (textsOf "value" nodes).getLast?.bind fun s => (Numeral.signed s).toOption

/-- The interrupt of an element, with a number for the case that it gives none. -/
def described (missing : Int) (nodes : List Node) : Interrupt where
  index := (ownNumber? nodes).getD missing
  name := (textsOf "name" nodes).getLast?.getD ""
  description := (textsOf "description" nodes).getLast?.getD ""

/-- The element names an interrupt, and what it says of its number is a number. -/
structure IsWellFormed (nodes : List Node) : Prop where
  known : ∀ n ∈ nodes, IsKnown n
  numbers : ∀ s ∈ textsOf "value" nodes, SpellsIndex s
  named : (textsOf "name" nodes).getLast?.getD "" ≠ ""

theorem textsOf_append (tag : String) (ns ms : List Node) :
    textsOf tag (ns ++ ms) = textsOf tag ns ++ textsOf tag ms := by
  rw [textsOf, childrenOf_append, List.map_append, ← textsOf, ← textsOf]

theorem textsOf_element (tag : String) (name : Name) (attributes : List Attribute)
    (children : List Node) : textsOf tag [.element name attributes children] =
      if name.base = tag then [Node.textOf children] else [] := by
  rw [textsOf, childrenOf_element]
  split <;> rfl

/-- The interrupt with what the parts say, each kind by the last of its texts. -/
def Draft.updated (d : Draft) (nodes : List Node) : Draft where
  name := (textsOf "name" nodes).getLast?.getD d.name
  description := (textsOf "description" nodes).getLast?.getD d.description
  index := (ownNumber? nodes).or d.index

/-- The last number counts, if it is one. -/
theorem ownNumber?_append {ns ms : List Node} (h : ∀ s ∈ textsOf "value" ms, SpellsIndex s) :
    ownNumber? (ns ++ ms) = (ownNumber? ms).or (ownNumber? ns) := by
  rw [ownNumber?, textsOf_append, List.getLast?_append]
  cases hlast : (textsOf "value" ms).getLast? with
  | none => simp [ownNumber?, hlast]
  | some s =>
    obtain ⟨i, hi, -⟩ := h s (List.mem_of_getLast? hlast)
    simp [ownNumber?, hlast, hi, Except.toOption]

theorem Draft.updated_append (d : Draft) (ns : List Node) {ms : List Node}
    (h : ∀ s ∈ textsOf "value" ms, SpellsIndex s) :
    d.updated (ns ++ ms) = (d.updated ns).updated ms := by
  simp only [updated, textsOf_append, List.getLast?_append, Option.getD_or, ownNumber?_append h,
    Option.or_assoc]

theorem Draft.step_eq_ok_iff {d d' : Draft} {n : Node} : d.step n = .ok d' ↔
    (IsKnown n ∧ ∀ s ∈ textsOf "value" [n], SpellsIndex s) ∧ d' = d.updated [n] := by
  cases n with
  | element name attributes children =>
    simp only [step, updated, ownNumber?, textsOf_element, IsKnown, Node.tag?]
    split
    case h_1 htag => simp [htag, eq_comm]
    case h_2 htag => simp [htag, eq_comm]
    case h_3 htag =>
      simp only [bind_eq_ok, Numeral.narrowSigned_eq_ok_iff]
      constructor
      · rintro ⟨i, hi, _, ⟨hrange, rfl⟩, h⟩
        cases h
        refine ⟨⟨by simp [htag], ?_⟩, by simp [htag, hi, Except.toOption]⟩
        simpa [htag] using ⟨i, hi, hrange⟩
      · rintro ⟨⟨-, hspells⟩, rfl⟩
        obtain ⟨i, hi, hrange⟩ := hspells (Node.textOf children) (by simp [htag])
        refine ⟨i, hi, i, ⟨hrange, rfl⟩, ?_⟩
        simp [htag, hi, Except.toOption, pure, Except.pure]
    case h_4 tag hname hdescription hvalue =>
      rw [if_neg hname, if_neg hdescription, if_neg hvalue]
      by_cases hignored : name.base ∈ ignoredTags
      · have hpass : Svd.pass "interrupt" name.base d = .ok d := by simp [Svd.pass, hignored]
        rw [hpass]
        exact ⟨fun h => ⟨⟨by simp [hignored], List.forall_mem_nil _⟩, (Except.ok.inj h).symm⟩,
          fun h => congrArg Except.ok h.2.symm⟩
      · have hpass : Svd.pass "interrupt" name.base d =
            fail (.unexpectedElement name.base "interrupt") := by simp [Svd.pass, hignored]
        have hpart : name.base ∉ ["name", "description", "value"] := by
          simpa using ⟨hname, hdescription, hvalue⟩
        rw [hpass]
        refine iff_of_false (fun h => by cases h) fun h => ?_
        exact (h.1.1 name.base rfl).elim hpart hignored
  | _ =>
    have hknown : ∀ tag ∈ (none : Option String),
        tag ∈ ["name", "description", "value"] ∨ tag ∈ ignoredTags := by simp
    exact ⟨fun h => ⟨⟨hknown, List.forall_mem_nil _⟩, (Except.ok.inj h).symm⟩, fun h => h.2 ▸ rfl⟩

theorem Draft.foldlM_step_eq_ok_iff {d d' : Draft} {nodes : List Node} :
    nodes.foldlM step d = .ok d' ↔
      ((∀ n ∈ nodes, IsKnown n) ∧ ∀ s ∈ textsOf "value" nodes, SpellsIndex s) ∧
      d' = d.updated nodes := by
  induction nodes generalizing d with
  | nil =>
    exact ⟨fun h => ⟨⟨List.forall_mem_nil _, List.forall_mem_nil _⟩, (Except.ok.inj h).symm⟩,
      fun h => h.2 ▸ rfl⟩
  | cons n ns ih =>
    have hsplit : textsOf "value" (n :: ns) = textsOf "value" [n] ++ textsOf "value" ns :=
      textsOf_append "value" [n] ns
    rw [List.foldlM_cons, bind_eq_ok, hsplit, List.forall_mem_cons, List.forall_mem_append]
    simp only [step_eq_ok_iff, ih]
    constructor
    · rintro ⟨_, ⟨⟨hn, hvalue⟩, rfl⟩, ⟨hns, hvalues⟩, rfl⟩
      exact ⟨⟨⟨hn, hns⟩, hvalue, hvalues⟩, (updated_append d [n] hvalues).symm⟩
    · rintro ⟨⟨⟨hn, hns⟩, hvalue, hvalues⟩, rfl⟩
      exact ⟨_, ⟨⟨hn, hvalue⟩, rfl⟩, ⟨hns, hvalues⟩, updated_append d [n] hvalues⟩

/-- Exactly the well-formed elements are read, as what they describe. -/
theorem ofSvd_eq_ok_iff {missing : Int} {nodes : List Node} {i : Interrupt} :
    ofSvd (some missing) nodes = .ok i ↔ IsWellFormed nodes ∧ i = described missing nodes := by
  have hempty : (Draft.updated {} nodes).name.isEmpty = true ↔
      (textsOf "name" nodes).getLast?.getD "" = "" := String.isEmpty_iff
  have hindex : (Draft.updated {} nodes).index.or (some missing) =
      some ((ownNumber? nodes).getD missing) := by
    cases h : ownNumber? nodes <;> simp [Draft.updated, h]
  rw [ofSvd, bind_eq_ok]
  simp only [Draft.foldlM_step_eq_ok_iff]
  constructor
  · rintro ⟨_, ⟨⟨hknown, hnumbers⟩, rfl⟩, h⟩
    split at h
    · cases h
    · rename_i hnamed
      rw [hindex] at h
      cases h
      exact ⟨⟨hknown, hnumbers, hempty.not.1 hnamed⟩, rfl⟩
  · rintro ⟨⟨hknown, hnumbers, hnamed⟩, rfl⟩
    refine ⟨_, ⟨⟨hknown, hnumbers⟩, rfl⟩, ?_⟩
    rw [if_neg (hempty.not.2 hnamed), hindex]
    rfl

theorem isOk_ofSvd_iff (missing : Int) {nodes : List Node} :
    (ofSvd (some missing) nodes).isOk = true ↔ IsWellFormed nodes := by
  cases h : ofSvd (some missing) nodes with
  | ok i => exact iff_of_true rfl (ofSvd_eq_ok_iff.1 h).1
  | error f =>
    refine iff_of_false (fun h => by cases h) fun hwell => ?_
    rw [ofSvd_eq_ok_iff.2 ⟨hwell, rfl⟩] at h
    cases h

instance : DecidablePred IsWellFormed := fun _ => decidable_of_iff _ (isOk_ofSvd_iff 0)

end Interrupt

/-! ## Numbers in a list -/

namespace Device

/-- The number of an interrupt behind another: its own, unless that asks for the next. -/
def follow (last own : Int) : Int := if automaticNumber < own then own else last + 1

/-- The numbers of interrupts in a list, with the number before them in front. -/
def numbersFrom (last : Int) (is : List Interrupt) : List Int :=
  is.scanl (fun last i => follow last i.index) last

/-- The interrupts of a list with their numbers. -/
def numberAll (last : Int) (is : List Interrupt) : List Interrupt :=
  is.zipWith (fun i n => { i with index := n }) (numbersFrom last is).tail

/-- The interrupts of a list with their numbers, each next to the number before it. -/
def stepsFrom (last : Int) (is : List Interrupt) : List (Int × Interrupt) :=
  (numbersFrom last is).zip (numberAll last is)

/-- The number is larger than the one before it. -/
def increases (p : Int × Interrupt) : Bool := p.1 < p.2.index

/-- The interrupts of a list up to the first whose number is not larger than the one before it. -/
def accepted (last : Int) (is : List Interrupt) : List Interrupt :=
  ((stepsFrom last is).takeWhile increases).map Prod.snd

variable {d : Device} {last own : Int} {i : Interrupt} {is : List Interrupt}

theorem numbersFrom_eq_cons (last : Int) (is : List Interrupt) :
    numbersFrom last is = last :: (numbersFrom last is).tail := by
  cases is <;> simp [numbersFrom]

theorem numbersFrom_cons (last : Int) (i : Interrupt) (is : List Interrupt) :
    numbersFrom last (i :: is) = last :: numbersFrom (follow last i.index) is := List.scanl_cons

theorem numberAll_cons (last : Int) (i : Interrupt) (is : List Interrupt) :
    numberAll last (i :: is) =
      { i with index := follow last i.index } :: numberAll (follow last i.index) is := by
  rw [numberAll, numbersFrom_cons, List.tail_cons, numbersFrom_eq_cons, List.zipWith_cons_cons]
  rfl

theorem stepsFrom_cons (last : Int) (i : Interrupt) (is : List Interrupt) :
    stepsFrom last (i :: is) =
      (last, { i with index := follow last i.index }) :: stepsFrom (follow last i.index) is := by
  rw [stepsFrom, numbersFrom_cons, numberAll_cons, List.zip_cons_cons, stepsFrom]

/-- Only a number of its own can be too small. -/
theorem follow_le_iff : follow last own ≤ last ↔ automaticNumber < own ∧ own ≤ last := by
  rw [follow]
  split <;> omega

/-- An interrupt of an element is numbered if its number is larger than the last. -/
theorem numbered_eq {cs : List Node} (hi : Interrupt.ofSvd (some automaticNumber) cs = .ok i)
    (last : Int) : numbered last cs =
      if last < follow last i.index then .ok { i with index := follow last i.index }
      else .error ⟨[], .interruptOrder i.name⟩ := by
  by_cases hauto : i.index ≤ automaticNumber
  · have hfollow : follow last i.index = last + 1 := if_neg (by omega)
    rw [hfollow, if_pos (by omega)]
    simp only [numbered, hi, bind, Except.bind, hauto, if_true, pure, Except.pure]
  · have hfollow : follow last i.index = i.index := if_pos (by omega)
    rw [hfollow]
    by_cases hle : i.index ≤ last
    · rw [if_neg (by omega)]
      simp only [numbered, hi, bind, Except.bind, hauto, hle, if_true, if_false]
      rfl
    · rw [if_pos (by omega)]
      simp only [numbered, hi, bind, Except.bind, hauto, hle, if_false, pure, Except.pure]

/-- The device with a table of the interrupts, if there are any. -/
def withListed (d : Device) (is : List Interrupt) : Device :=
  { d with vectorTable := VectorTable.ofList? is }

@[simp] theorem withListed_withListed (d : Device) (is js : List Interrupt) :
    (d.withListed is).withListed js = d.withListed js := rfl

/-- The interrupts so far make the table of the device, and none has a number behind the last. -/
structure HasListed (d : Device) (last : Int) (done : List Interrupt) : Prop where
  table : d.vectorTable = VectorTable.ofList? done
  increasing : done.Pairwise fun a b => a.index < b.index
  le_last : ∀ i ∈ done, i.index ≤ last

variable {done : List Interrupt}

theorem hasListed_nil (h : d.vectorTable = none) (last : Int) : d.HasListed last [] :=
  ⟨h, .nil, List.forall_mem_nil _⟩

theorem HasListed.withListed_eq (h : d.HasListed last done) : d.withListed done = d := by
  rw [withListed, ← h.table]

theorem HasListed.mono (h : d.HasListed last done) {next : Int} (hle : last ≤ next) :
    d.HasListed next done :=
  ⟨h.table, h.increasing, fun i hi => Int.le_trans (h.le_last i hi) hle⟩

theorem HasListed.concat (h : d.HasListed last done) (hlt : last < i.index) :
    (d.withListed (done ++ [i])).HasListed i.index (done ++ [i]) := by
  have hdone (a : Interrupt) (ha : a ∈ done) : a.index < i.index :=
    Int.lt_of_le_of_lt (h.le_last a ha) hlt
  refine ⟨rfl, List.pairwise_append.2 ⟨h.increasing, List.pairwise_singleton _ _, ?_⟩, ?_⟩
  · intro a ha b hb
    rw [List.mem_singleton.1 hb]
    exact hdone a ha
  · rw [List.forall_mem_append, List.forall_mem_singleton]
    exact ⟨fun a ha => Int.le_of_lt (hdone a ha), Int.le_refl _⟩

/-- One more interrupt behind the last is put at the end of the table, unless it is an exception of
the core. -/
theorem HasListed.extend_eq (h : d.HasListed last done) (hlt : last < i.index) :
    d.extend i = if i.index < 0 then { state := d, warnings := [.discardedVector i.name] }
      else .pure (d.withListed (done ++ [i])) := by
  rw [extend, addVector, h.table, VectorTable.add_ofList? (h.concat hlt).increasing, withListed,
    VectorTable.ofList?_append_singleton]
  rfl

/-- A list of interrupts is read up to the first whose number is not larger than the one before it.
Of those in front of it, the exceptions of the core are discarded and the others are put into the
table. -/
theorem addNumbered_eq {css : List (List Node)}
    (hread : List.Forall₂ (fun cs i => Interrupt.ofSvd (some automaticNumber) cs = .ok i) css is)
    (h : d.HasListed last done) : d.addNumbered last css =
      { state := d.withListed (done ++ (accepted last is).filter (0 ≤ ·.index))
        warnings := ((accepted last is).filter (·.index < 0)).map (.discardedVector ·.name)
        failure := ((stepsFrom last is).find? (!increases ·)).map fun p =>
          ⟨[], .interruptOrder p.2.name⟩ } := by
  -- the table so far grows along with the last number
  induction hread generalizing d last done with
  | nil => simp [addNumbered, accepted, stepsFrom, numberAll, Outcome.pure, h.withListed_eq]
  | @cons cs i css is hi hread ih =>
    rw [addNumbered, numbered_eq hi]
    generalize hj : ({ i with index := follow last i.index } : Interrupt) = j
    have hindex : follow last i.index = j.index := by rw [← hj]
    have hname : i.name = j.name := by rw [← hj]
    have hsteps : stepsFrom last (i :: is) = (last, j) :: stepsFrom j.index is := by
      rw [stepsFrom_cons, hj, hindex]
    rw [hindex]
    by_cases hlt : last < j.index
    · have haccepted : accepted last (i :: is) = j :: accepted j.index is := by
        simp [accepted, hsteps, increases, hlt]
      rw [if_pos hlt]
      simp only [h.extend_eq hlt, haccepted, hsteps]
      by_cases hneg : j.index < 0
      · have hpos : ¬0 ≤ j.index := by omega
        simp [Outcome.andThen, ih (h.mono (Int.le_of_lt hlt)), increases, hlt, hneg, hpos]
      · have hpos : 0 ≤ j.index := Int.not_lt.1 hneg
        simp [ih (h.concat hlt), increases, hlt, hneg, hpos]
    · rw [if_neg hlt]
      simp [accepted, hsteps, increases, hlt, hname, h.withListed_eq]

/-! ## Lists that are read -/

theorem length_numbersFrom (last : Int) (is : List Interrupt) :
    (numbersFrom last is).length = is.length + 1 := List.length_scanl

theorem map_snd_stepsFrom (last : Int) (is : List Interrupt) :
    (stepsFrom last is).map Prod.snd = numberAll last is := by
  refine List.map_snd_zip ?_
  rw [numberAll, List.length_zipWith, List.length_tail, length_numbersFrom]
  omega

/-- The number of an interrupt depends on the number before it and on its own. -/
theorem stepsFrom_eq_map (last : Int) (is : List Interrupt) :
    stepsFrom last is = ((numbersFrom last is).zip is).map fun p =>
      (p.1, { p.2 with index := follow p.1 p.2.index }) := by
  induction is generalizing last with
  | nil => simp [stepsFrom, numberAll]
  | cons i is ih => rw [stepsFrom_cons, ih, numbersFrom_cons, List.zip_cons_cons, List.map_cons]

/-- If each number is larger than the one before it, it is larger than all before it. -/
theorem pairwise_numbersFrom (h : ∀ p ∈ stepsFrom last is, increases p = true) :
    (numbersFrom last is).Pairwise (· < ·) := by
  rw [← List.isChain_iff_pairwise]
  induction is generalizing last with
  | nil => simp [numbersFrom]
  | cons i is ih =>
    rw [stepsFrom_cons, List.forall_mem_cons] at h
    have hrest := ih h.2
    rw [numbersFrom_eq_cons] at hrest
    rw [numbersFrom_cons, numbersFrom_eq_cons, List.isChain_cons_cons]
    exact ⟨by simpa [increases] using h.1, hrest⟩

theorem map_index_numberAll (last : Int) (is : List Interrupt) :
    (numberAll last is).map Interrupt.index = (numbersFrom last is).tail := by
  induction is generalizing last with
  | nil => simp [numberAll, numbersFrom]
  | cons i is ih =>
    rw [numberAll_cons, List.map_cons, ih, numbersFrom_cons, List.tail_cons, ← numbersFrom_eq_cons]

theorem pairwise_numberAll (h : ∀ p ∈ stepsFrom last is, increases p = true) :
    (numberAll last is).Pairwise fun a b => a.index < b.index := by
  have hnumbers := (pairwise_numbersFrom h).sublist (List.tail_sublist _)
  rw [← map_index_numberAll] at hnumbers
  exact List.pairwise_map.1 hnumbers

theorem accepted_eq_numberAll (h : ∀ p ∈ stepsFrom last is, increases p = true) :
    accepted last is = numberAll last is := by
  rw [accepted, List.takeWhile_eq_self_iff.2 h, map_snd_stepsFrom]

/-- Well-formed elements are read as what they describe. -/
theorem forall₂_described {css : List (List Node)}
    (hwell : ∀ cs ∈ css, Interrupt.IsWellFormed cs) :
    List.Forall₂ (fun cs i => Interrupt.ofSvd (some automaticNumber) cs = .ok i) css
      (css.map (Interrupt.described automaticNumber)) :=
  List.forall₂_map_right_iff.2 <| List.forall₂_same.2 fun cs hcs =>
    Interrupt.ofSvd_eq_ok_iff.2 ⟨hwell cs hcs, rfl⟩

/-- A list is not read to its end if and only if an interrupt in it has a number of its own that is
not larger than the number before it. -/
theorem exists_not_increases_iff {css : List (List Node)} :
    (∃ p ∈ stepsFrom last (css.map (Interrupt.described automaticNumber)), ¬increases p = true) ↔
      ∃ p ∈ (numbersFrom last (css.map (Interrupt.described automaticNumber))).zip css,
        ∃ own, Interrupt.ownNumber? p.2 = some own ∧ automaticNumber < own ∧ own ≤ p.1 := by
  have hown (last : Int) (cs : List Node) :
      follow last (Interrupt.described automaticNumber cs).index ≤ last ↔
        ∃ own, Interrupt.ownNumber? cs = some own ∧ automaticNumber < own ∧ own ≤ last := by
    rw [follow_le_iff, Interrupt.described]
    cases Interrupt.ownNumber? cs <;> simp
  simp only [stepsFrom_eq_map, List.zip_map_right, List.mem_map, exists_exists_and_eq_and,
    increases, Prod.map_fst, Prod.map_snd, id, decide_eq_true_eq, Int.not_lt, hown]

/-- **Numbers of interrupts increase.** In a list of well-formed interrupts, each has its own number
if that is larger than -100, and else the one after the number before it, which for the first is
-1000. The list is refused if and only if an interrupt has a number of its own above -100 that is
not larger than the number before it, and for no other reason. If it is read, the numbers increase,
and the device has a table of exactly those that are not negative, each under its number, or none if
there are no such interrupts. -/
theorem stepExtension_numbering {d : Device} (hd : d.vectorTable = none) {name : Name}
    (hname : name.base = "interrupts") (attributes : List Attribute) {nodes : List Node}
    (hwell : ∀ cs ∈ childrenOf "interrupt" nodes, Interrupt.IsWellFormed cs) :
    let elements := childrenOf "interrupt" nodes
    let listed := elements.map (Interrupt.described automaticNumber)
    let numbers := numbersFrom numberBeforeFirst listed
    let kept := (numberAll numberBeforeFirst listed).filter (0 ≤ ·.index)
    let out := d.stepExtension (.element name attributes nodes)
    (out.failure ≠ none ↔ ∃ p ∈ numbers.zip elements, ∃ own,
      Interrupt.ownNumber? p.2 = some own ∧ automaticNumber < own ∧ own ≤ p.1) ∧
    (∀ f, out.failure = some f → ∃ i ∈ listed, f = ⟨[], .interruptOrder i.name⟩) ∧
    (out.failure = none → numbers.Pairwise (· < ·) ∧ { out.state with vectorTable := none } = d ∧
      out.state.vectorTable.map (·.entries) =
        if kept.isEmpty then none else some (kept.map fun i => (i.index, i))) := by
  intro elements listed numbers kept out
  have hout : out = d.addNumbered numberBeforeFirst elements := by
    simp only [out, stepExtension, hname]
    rfl
  rw [addNumbered_eq (forall₂_described hwell) (hasListed_nil hd _)] at hout
  have hfailure : out.failure = none ↔
      ∀ p ∈ stepsFrom numberBeforeFirst listed, increases p = true := by
    rw [hout]
    simp [listed, elements]
  refine ⟨?_, fun f hf => ?_, fun hf => ⟨?_, ?_, ?_⟩⟩
  · rw [← exists_not_increases_iff, Ne, hfailure]
    simp only [not_forall, exists_prop]
    rfl
  · rw [hout] at hf
    obtain ⟨p, hp, rfl⟩ := Option.map_eq_some_iff.1 hf
    have hmem := List.mem_of_find?_eq_some hp
    rw [stepsFrom_eq_map] at hmem
    obtain ⟨q, hq, rfl⟩ := List.mem_map.1 hmem
    exact ⟨q.2, (List.of_mem_zip hq).2, rfl⟩
  · exact pairwise_numbersFrom (hfailure.1 hf)
  · rw [hout, ← hd]
    rfl
  · have hkept : kept.Pairwise fun a b => a.index < b.index :=
      (pairwise_numberAll (hfailure.1 hf)).sublist List.filter_sublist
    rw [hout, accepted_eq_numberAll (hfailure.1 hf)]
    exact VectorTable.map_entries_ofList? hkept

section Example

/-- Interrupts without and with numbers of their own. -/
private def listing (last : String) : List Node :=
  [.group "interrupt" [.leaf "name" "DMA"], .text "\n",
   .group "interrupt" [.leaf "name" "ADC", .leaf "value" "4"],
   .group "interrupt" [.leaf "name" "UART"],
   .group "interrupt" [.leaf "name" "SPI", .leaf "value" last]]

private def receiver : Device := { name := "RADIO" }

theorem stepExtension_numbering_receiver :
    (receiver.stepExtension (.element ⟨"", "interrupts"⟩ [] (listing "7"))).state.vectorTable.map
        (·.entries.map fun e => (e.1, e.2.name)) = some [(4, "ADC"), (5, "UART"), (7, "SPI")] ∧
      (receiver.stepExtension (.element ⟨"", "interrupts"⟩ [] (listing "5"))).failure ≠ none := by
  have hwell (last : String) (h : last = "7" ∨ last = "5") :
      ∀ cs ∈ childrenOf "interrupt" (listing last), Interrupt.IsWellFormed cs := by
    rcases h with rfl | rfl <;> decide
  have hempty : receiver.vectorTable = none := rfl
  have hname : (⟨"", "interrupts"⟩ : Name).base = "interrupts" := rfl
  obtain ⟨hread, -, htable⟩ := stepExtension_numbering hempty hname [] (hwell "7" (.inl rfl))
  obtain ⟨hrefused, -⟩ := stepExtension_numbering hempty hname [] (hwell "5" (.inr rfl))
  refine ⟨?_, hrefused.2 (by decide)⟩
  obtain ⟨-, -, hentries⟩ := htable (not_not.1 (mt hread.1 (by decide)))
  have hnames := congrArg (Option.map (List.map fun e => (e.1, e.2.name))) hentries
  rw [Option.map_map] at hnames
  exact hnames.trans (by decide)

end Example

end Device

end RegisterMap
