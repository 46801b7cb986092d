import Mathlib.Data.Option.Basic
import RegisterMap.Pattern

/-!
# What patterns match

The texts that a pattern allows, with their groups, whatever the order in which they are tried:
`Pattern.Parses`. A text that matches is one of them (`parses_of_groups?`).
-/

namespace RegisterMap.Pattern

/-- The pattern allows the text, with these groups, those that end last first. -/
inductive Parses : Pattern → List Char → Groups → Prop
  | empty : Parses .empty [] []
  | text (t : List Char) : Parses (.text t) t []
  | one {accepts : Char → Bool} {c : Char} (h : accepts c = true) : Parses (.one accepts) [c] []
  | run {accepts : Char → Bool} {least : Nat} {greedy : Bool} {t : List Char}
      (hleast : least ≤ t.length) (h : ∀ c ∈ t, accepts c = true) :
      Parses (.run accepts least greedy) t []
  | seq {a b : Pattern} {s t : List Char} {gs hs : Groups} (ha : Parses a s gs)
      (hb : Parses b t hs) : Parses (.seq a b) (s ++ t) (hs ++ gs)
  | left {a b : Pattern} {t : List Char} {gs : Groups} (h : Parses a t gs) : Parses (.alt a b) t gs
  | right {a b : Pattern} {t : List Char} {gs : Groups} (h : Parses b t gs) : Parses (.alt a b) t gs
  | group {p : Pattern} {t : List Char} {gs : Groups} (n : Nat) (h : Parses p t gs) :
      Parses (.group n p) t ((n, t) :: gs)

/-! ## Matches are allowed -/

variable {α : Type} {x : α}

theorem Parses.run_nil {accepts : Char → Bool} {greedy : Bool} :
    Parses (.run accepts 0 greedy) [] [] :=
  .run (Nat.le_refl _) nofun

theorem Parses.run_cons {accepts : Char → Bool} {greedy : Bool} {least : Nat} {c : Char}
    {t : List Char} (hc : accepts c = true) (h : Parses (.run accepts least greedy) t []) :
    Parses (.run accepts (least + 1) greedy) (c :: t) [] := by
  cases h with
  | run hleast ht => exact .run (Nat.succ_le_succ hleast) (List.forall_mem_cons.2 ⟨hc, ht⟩)

theorem Parses.run_zero {accepts : Char → Bool} {greedy : Bool} {least : Nat} {t : List Char}
    (h : Parses (.run accepts least greedy) t []) : Parses (.run accepts 0 greedy) t [] := by
  cases h with
  | run hleast ht => exact .run (Nat.zero_le _) ht

theorem parses_of_matchRun {accepts : Char → Bool} {greedy : Bool} {next : List Char → Option α}
    {least : Nat} {s : List Char} (h : matchRun accepts greedy next least s = some x) :
    ∃ t rest, s = t ++ rest ∧ Parses (.run accepts least greedy) t [] ∧ next rest = some x := by
  fun_induction matchRun accepts greedy next least s with
  | case1 => exact ⟨[], [], rfl, .run_nil, h⟩
  | case2 => cases h
  | case3 c cs hc hgreedy ih =>
    rcases (Option.orElse_eq_some _ _ _).1 h with h | ⟨-, h⟩
    · obtain ⟨t, rest, rfl, ht, h⟩ := ih h
      exact ⟨c :: t, rest, rfl, (ht.run_cons hc).run_zero, h⟩
    · exact ⟨[], c :: cs, rfl, .run_nil, h⟩
  | case4 c cs hc hgreedy ih =>
    rcases (Option.orElse_eq_some _ _ _).1 h with h | ⟨-, h⟩
    · exact ⟨[], c :: cs, rfl, .run_nil, h⟩
    · obtain ⟨t, rest, rfl, ht, h⟩ := ih h
      exact ⟨c :: t, rest, rfl, (ht.run_cons hc).run_zero, h⟩
  | case5 c cs hc => exact ⟨[], c :: cs, rfl, .run_nil, h⟩
  | case6 least c cs hc ih =>
    obtain ⟨t, rest, rfl, ht, h⟩ := ih h
    exact ⟨c :: t, rest, rfl, ht.run_cons hc, h⟩
  | case7 => cases h

/-- A match goes on behind a text that the pattern allows. -/
theorem parses_of_matchThen {p : Pattern} : ∀ {next : List Char → Groups → Option α}
    {s : List Char} {gs : Groups}, p.matchThen next s gs = some x →
      ∃ t rest hs, s = t ++ rest ∧ p.Parses t hs ∧ next rest (hs ++ gs) = some x := by
  induction p with
  | empty =>
    intro next s gs h
    exact ⟨[], s, [], rfl, .empty, h⟩
  | text t =>
    intro next s gs h
    unfold matchThen at h
    split at h
    · rename_i hprefix
      obtain ⟨rest, rfl⟩ := List.isPrefixOf_iff_prefix.1 hprefix
      rw [List.drop_left] at h
      exact ⟨t, rest, [], rfl, .text t, h⟩
    · cases h
  | one accepts =>
    intro next s gs h
    cases s with
    | nil => cases h
    | cons c cs =>
      simp only [matchThen] at h
      split at h
      · rename_i hc
        exact ⟨[c], cs, [], rfl, .one hc, h⟩
      · cases h
  | run accepts least greedy =>
    intro next s gs h
    obtain ⟨t, rest, hs, ht, h⟩ := parses_of_matchRun h
    exact ⟨t, rest, [], hs, ht, h⟩
  | seq a b iha ihb =>
    intro next s gs h
    obtain ⟨t, rest, hs, rfl, ha, h⟩ := iha h
    obtain ⟨u, rest, is, rfl, hb, h⟩ := ihb h
    rw [← List.append_assoc] at h
    exact ⟨t ++ u, rest, is ++ hs, (List.append_assoc ..).symm, .seq ha hb, h⟩
  | alt a b iha ihb =>
    intro next s gs h
    rcases (Option.orElse_eq_some _ _ _).1 h with h | ⟨-, h⟩
    · obtain ⟨t, rest, hs, rfl, ha, h⟩ := iha h
      exact ⟨t, rest, hs, rfl, .left ha, h⟩
    · obtain ⟨t, rest, hs, rfl, hb, h⟩ := ihb h
      exact ⟨t, rest, hs, rfl, .right hb, h⟩
  | group n p ih =>
    intro next s gs h
    obtain ⟨t, rest, hs, rfl, hp, h⟩ := ih h
    have htake : (t ++ rest).take ((t ++ rest).length - rest.length) = t := by
      rw [List.length_append, Nat.add_sub_cancel, List.take_left]
    rw [htake] at h
    exact ⟨t, rest, (n, t) :: hs, rfl, .group n hp, h⟩

/-- A text that matches as a whole is allowed as a whole. -/
theorem parses_of_groups? {p : Pattern} {s : String} {gs : Groups} (h : p.groups? s = some gs) :
    p.Parses s.toList gs := by
  obtain ⟨t, rest, hs, hsplit, hp, h⟩ := parses_of_matchThen h
  cases rest with
  | nil =>
    simp only [List.isEmpty_nil, if_true, List.append_nil, Option.some.injEq] at h
    rw [hsplit, List.append_nil, ← h]
    exact hp
  | cons c cs => cases h

/-- The characters of the groups are those of the text. -/
theorem Parses.mem_of_mem_groups {p : Pattern} {t : List Char} {gs : Groups} (h : p.Parses t gs)
    {g : Nat × List Char} (hg : g ∈ gs) {c : Char} (hc : c ∈ g.2) : c ∈ t := by
  induction h with
  | empty => cases hg
  | text _ => cases hg
  | one _ => cases hg
  | run _ _ => cases hg
  | seq _ _ iha ihb =>
    rcases List.mem_append.1 hg with hg | hg
    · exact List.mem_append_right _ (ihb hg)
    · exact List.mem_append_left _ (iha hg)
  | left _ ih => exact ih hg
  | right _ ih => exact ih hg
  | group n _ ih =>
    rcases List.mem_cons.1 hg with rfl | hg
    · exact hc
    · exact ih hg

/-! ## Patterns without groups -/

/-- There is no group in the pattern. -/
def isPlain : Pattern → Bool
  | .seq a b => a.isPlain && b.isPlain
  | .alt a b => a.isPlain && b.isPlain
  | .group _ _ => false
  | _ => true

theorem Parses.groups_eq_nil {p : Pattern} {t : List Char} {gs : Groups} (h : p.Parses t gs)
    (hp : p.isPlain = true) : gs = [] := by
  induction h with
  | empty => rfl
  | text t => rfl
  | one _ => rfl
  | run _ _ => rfl
  | seq _ _ iha ihb =>
    rw [isPlain, Bool.and_eq_true] at hp
    rw [iha hp.1, ihb hp.2, List.append_nil]
  | left _ ih =>
    rw [isPlain, Bool.and_eq_true] at hp
    exact ih hp.1
  | right _ ih =>
    rw [isPlain, Bool.and_eq_true] at hp
    exact ih hp.2
  | group _ _ _ => cases hp

end RegisterMap.Pattern
