import Mathlib.Data.List.TakeWhile
import RegisterMap.Header.Member
import RegisterMap.Proofs.Pattern
import RegisterMap.Proofs.Placeholder
import RegisterMap.Reduction.Arrays

/-!
# Names of folded registers

A rule that only cuts an index out of a name, `IndexRule.Restores`, gives an array whose elements
have the names of the registers that it was made of (`elementName_of_split?`). So do the rules of
all peripherals but `LTC` and `LTC0`, whose rule also drops the underscore before the index
(`ruleOf_restores`).
-/

namespace RegisterMap.Arrays

open Pattern Placeholder

/-- The rule splits names around an index, and puts the placeholder in its place. -/
def IndexRule.Restores (rule : IndexRule) : Prop :=
  ∀ register array index : String, rule.split? register = some (array, index) →
    ∃ a b, register.toList = a ++ index.toList ++ b ∧ array.toList = a ++ mark ++ b ∧
      ':' ∉ index.toList

/-! ## The rules -/

theorem parses_all_cons {p : Pattern} {ps : List Pattern} {s : List Char} {gs : Groups} :
    Parses (all (p :: ps)) s gs ↔ ∃ t u is js, s = t ++ u ∧ gs = js ++ is ∧ p.Parses t is ∧
      Parses (all ps) u js := by
  constructor
  · rintro ⟨⟩
    exact ⟨_, _, _, _, rfl, rfl, ‹_›, ‹_›⟩
  · rintro ⟨t, u, is, js, rfl, rfl, hp, hps⟩
    exact .seq hp hps

theorem parses_all_nil {s : List Char} {gs : Groups} :
    Parses (all []) s gs ↔ s = [] ∧ gs = [] := by
  constructor
  · rintro ⟨⟩
    exact ⟨rfl, rfl⟩
  · rintro ⟨rfl, rfl⟩
    exact .empty

theorem parses_group {n : Nat} {p : Pattern} {t : List Char} {gs : Groups} (hp : p.isPlain = true)
    (h : Parses (group n p) t gs) : gs = [(n, t)] ∧ p.Parses t [] := by
  cases h with
  | group _ h =>
    cases h.groups_eq_nil hp
    exact ⟨rfl, h⟩

theorem IndexRule.split?_eq_some {rule : IndexRule} {register array index : String}
    (h : rule.split? register = some (array, index)) :
    ∃ gs, rule.pattern.Parses register.toList gs ∧ rule.name.fill gs = array ∧
      rule.index.fill gs = index := by
  obtain ⟨gs, hgs, hfill⟩ := Option.map_eq_some_iff.1 h
  obtain ⟨rfl, rfl⟩ := Prod.mk.inj hfill
  exact ⟨gs, parses_of_groups? hgs, rfl, rfl⟩

/-- A rule restores names when it matches a text, an index without colon, and a text. -/
theorem restores_inside {p q r : Pattern} (hp : p.isPlain = true) (hq : q.isPlain = true)
    (hr : r.isPlain = true) (hcolon : ∀ {t}, q.Parses t [] → ':' ∉ t) :
    IndexRule.Restores ⟨all [group 1 p, group 2 q, group 3 r], inside, [.group 2]⟩ := by
  intro register array index h
  obtain ⟨gs, hparses, rfl, rfl⟩ := IndexRule.split?_eq_some h
  simp only [parses_all_cons, parses_all_nil] at hparses
  obtain ⟨a, _, _, _, hregister, rfl, h1, i, _, _, _, rfl, rfl, h2, b, _, _, _, rfl, rfl, h3,
    rfl, rfl⟩ := hparses
  obtain ⟨rfl, -⟩ := parses_group hp h1
  obtain ⟨rfl, hi⟩ := parses_group hq h2
  obtain ⟨rfl, -⟩ := parses_group hr h3
  refine ⟨a, b, ?_, ?_, ?_⟩
  · simp [hregister, Template.fill, List.lookup_cons]
  · simp [inside, Template.fill, List.lookup_cons, mark]
  · simp [Template.fill, List.lookup_cons, hcolon hi]

/-- A rule restores names when it matches a text and an index without colon. -/
theorem restores_behind {p q : Pattern} (hp : p.isPlain = true) (hq : q.isPlain = true)
    (hcolon : ∀ {t}, q.Parses t [] → ':' ∉ t) :
    IndexRule.Restores ⟨all [group 1 p, group 2 q], [.group 1, .text "%s"], [.group 2]⟩ := by
  intro register array index h
  obtain ⟨gs, hparses, rfl, rfl⟩ := IndexRule.split?_eq_some h
  simp only [parses_all_cons, parses_all_nil] at hparses
  obtain ⟨a, _, _, _, hregister, rfl, h1, i, _, _, _, rfl, rfl, h2, rfl, rfl⟩ := hparses
  obtain ⟨rfl, -⟩ := parses_group hp h1
  obtain ⟨rfl, hi⟩ := parses_group hq h2
  refine ⟨a, [], ?_, ?_, ?_⟩
  · simp [hregister, Template.fill, List.lookup_cons]
  · simp [Template.fill, List.lookup_cons, mark]
  · simp [Template.fill, List.lookup_cons, hcolon hi]

theorem not_mem_of_parses_run {accepts : Char → Bool} {least : Nat} {greedy : Bool}
    {t : List Char} (h : Parses (run accepts least greedy) t []) {c : Char}
    (hc : accepts c = false) : c ∉ t := by
  cases h with
  | run _ ht =>
    intro hmem
    rw [ht c hmem] at hc
    cases hc

theorem usualRule_restores : usualRule.Restores := by
  refine restores_behind rfl rfl fun {t} h => ?_
  cases h with
  | left h => exact not_mem_of_parses_run h (by decide)
  | right h =>
    cases h with
    | one hc =>
      intro hmem
      cases List.mem_singleton.1 hmem
      exact absurd hc (by decide)

/-- Every peripheral but two has a rule that restores names. -/
theorem ruleOf_restores {peripheral : String} (h : peripheral ≠ "LTC") (h0 : peripheral ≠ "LTC0") :
    (ruleOf peripheral).Restores := by
  have hdigits {t : List Char} (ht : Parses (asciiDigits 1) t []) : ':' ∉ t :=
    not_mem_of_parses_run ht (by decide)
  unfold ruleOf ofPeripheral?
  cases hfind : rules.find? fun (names, _) => names.contains peripheral with
  | none => exact usualRule_restores
  | some entry =>
    rw [Option.map_some, Option.getD_some]
    have hmem := List.mem_of_find?_eq_some hfind
    have hname := List.find?_some hfind
    simp only [rules, List.mem_cons, List.not_mem_nil, or_false] at hmem
    rcases hmem with rfl | rfl | rfl
    · exact restores_inside rfl rfl rfl hdigits
    · exact restores_inside rfl rfl rfl hdigits
    · simp [h, h0] at hname

/-! ## The names of elements -/

theorem indexText_eq {stride n : Nat} {indexes : List String} {index : String}
    (hn : indexes[n]? = some index) (hcolon : ':' ∉ index.toList) :
    Dim.indexText ⟨stride, indexes⟩ n = index := by
  have hwhole : index.toList.takeWhile (· != ':') = index.toList := by
    rw [List.takeWhile_eq_self_iff]
    intro c hc
    rw [bne_iff_ne]
    rintro rfl
    exact hcolon hc
  rw [Dim.indexText, List.getD_eq_getElem?_getD, hn, Option.getD_some, hwhole,
    String.ofList_toList]

/-- An element of an array has the name of the register that its index came from, when that is
split into the same array name as a register without placeholder. -/
theorem elementName_of_split? {rule : IndexRule} (hrule : rule.Restores)
    {first array index : String} (hfirst : rule.split? first = some (array, index))
    (hplain : isIn first = false) {name i : String} (hname : rule.split? name = some (array, i))
    {indexes : List String} {n : Nat} (hn : indexes[n]? = some i) (stride : Nat) :
    Member.elementName array (some ⟨stride, indexes⟩) n = name := by
  obtain ⟨a, b, hfirst, harray, -⟩ := hrule _ _ _ hfirst
  obtain ⟨a', b', hname, harray', hcolon⟩ := hrule _ _ _ hname
  rw [isIn_eq_false, hfirst] at hplain
  have ha : ¬mark <:+: a := fun h => hplain (h.trans ⟨[], index.toList ++ b, by simp⟩)
  have hb : ¬mark <:+: b := fun h => hplain (h.trans ⟨a ++ index.toList, [], by simp⟩)
  obtain ⟨rfl, rfl⟩ := eq_of_append_mark ha hb (harray.symm.trans harray')
  rw [Member.elementName, indexText_eq hn hcolon]
  exact fill_eq i harray ha hb hname

end RegisterMap.Arrays
