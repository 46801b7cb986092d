import RegisterMap.Peripheral
import RegisterMap.Proofs.Numeral.Spelling
import RegisterMap.Proofs.Pattern

/-!
# Common names of peripherals

The name that headers have for a peripheral is its own, or one of a few (`Peripheral.aliasNames`),
which have no other.
-/

namespace RegisterMap.Peripheral

open Text

/-- The names that aliases give. -/
def aliasNames : List String :=
  ["GPIOA", "GPIOB", "GPIOC", "GPIOD", "GPIOE", "GPIOF",
   "FGPIOA", "FGPIOB", "FGPIOC", "FGPIOD", "FGPIOE", "FGPIOF", "NV", "SCB", "SYST"]

/-- A letter behind a fixed text is the first group of the pattern. -/
theorem exists_letter_of_groups? {mark name : String} {accepts : Char → Bool}
    {gs : Pattern.Groups} (h : (Pattern.all [.lit mark, .group 1 (.one accepts)]).groups? name =
      some gs) : ∃ c, accepts c = true ∧ gs = [(1, [c])] := by
  have hparses := Pattern.parses_of_groups? h
  generalize name.toList = text at hparses
  cases hparses with
  | seq hmark hrest =>
    cases hmark with
    | text =>
      cases hrest with
      | seq hgroup hend =>
        cases hend with
        | empty =>
          cases hgroup with
          | group n hone =>
            cases hone with
            | one hc => exact ⟨_, hc, rfl⟩

theorem eq_of_between {c : Char} (h : Pattern.between 'A' 'F' c = true) :
    c = 'A' ∨ c = 'B' ∨ c = 'C' ∨ c = 'D' ∨ c = 'E' ∨ c = 'F' := by
  have hle (a b : Char) : a ≤ b ↔ a.toNat ≤ b.toNat := UInt32.le_iff_toNat_le
  rw [Pattern.between, Bool.and_eq_true, decide_eq_true_iff, decide_eq_true_iff, hle, hle] at h
  change 65 ≤ c.toNat ∧ c.toNat ≤ 70 at h
  exact Numeral.forall_between 65 6
    (P := fun _ c => c = 'A' ∨ c = 'B' ∨ c = 'C' ∨ c = 'D' ∨ c = 'E' ∨ c = 'F') (by decide) h.1
    (by omega)

/-- A name has no alias, or one of a few. -/
theorem commonName_cases (name : String) :
    commonName name = name ∨ commonName name ∈ aliasNames := by
  unfold commonName Renaming.rename
  cases hfirst : Renaming.first? aliases name with
  | none => exact .inl rfl
  | some t =>
    right
    obtain ⟨r, hr, hfill⟩ := List.exists_of_findSome?_eq_some hfirst
    obtain ⟨gs, hgs, rfl⟩ := Option.map_eq_some_iff.1 hfill
    rw [Option.getD_some]
    simp only [aliases, List.mem_cons, List.not_mem_nil, or_false] at hr
    rcases hr with rfl | rfl | rfl | rfl | rfl
    · obtain ⟨c, hc, rfl⟩ := exists_letter_of_groups? hgs
      rcases eq_of_between hc with rfl | rfl | rfl | rfl | rfl | rfl <;> decide
    · obtain ⟨c, hc, rfl⟩ := exists_letter_of_groups? hgs
      rcases eq_of_between hc with rfl | rfl | rfl | rfl | rfl | rfl <;> decide
    · rw [show Template.fill [.text "NV"] gs = "NV" from rfl]
      decide
    · rw [show Template.fill [.text "SCB"] gs = "SCB" from rfl]
      decide
    · rw [show Template.fill [.text "SYST"] gs = "SYST" from rfl]
      decide

theorem commonName_commonName (name : String) : commonName (commonName name) = commonName name := by
  rcases commonName_cases name with h | h
  · rw [h, h]
  · have hall : ∀ n ∈ aliasNames, commonName n = n := by decide +kernel
    exact hall _ h

theorem isTrimmed_commonName {name : String} (h : IsTrimmed name.toList) :
    IsTrimmed (commonName name).toList := by
  rcases commonName_cases name with hname | hname
  · rwa [hname]
  · have hall : ∀ n ∈ aliasNames, IsTrimmed n.toList := by decide +kernel
    exact hall _ hname

end RegisterMap.Peripheral
