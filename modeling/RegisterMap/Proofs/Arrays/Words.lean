import Mathlib
import RegisterMap.Proofs.Arrays.Folding
import RegisterMap.Proofs.Arrays.Names
import RegisterMap.Proofs.Equivalence
import RegisterMap.Proofs.Success

/-!
# Folding keeps the register map

Registers that are folded into one array are alike but for their names and descriptions, and lie
where the elements of the array lie. So the same words stand at the same addresses as before, with
the same names unless the rule of the peripheral changes them (`foldArrays_words`).
-/

namespace RegisterMap

/-! ## Words -/

/-- What stands at an address. -/
structure Word where
  address : Nat
  width : Nat
  access : Access
  resetValue : Nat
  resetMask : Nat
  /-- Position, width and access of each field. -/
  bits : Finset (Nat × Nat × Option Access)
  deriving DecidableEq

/-- Position and width of a field, and its access if it has its own. -/
def Field.range (f : Field) : Nat × Nat × Option Access := (f.bitOffset, f.bitWidth, f.access)

namespace Register

/-- The ranges of the fields of the register's own. -/
def bits (r : Register) : Finset (Nat × Nat × Option Access) := (r.fields.map Field.range).toFinset

theorem ranges_eq_of_equivalentBody {a b : Register} {i j : Option String} {cmp : Comparison}
    (h : a.equivalentBody b i j cmp = true) :
    a.sortedFields.map Field.range = b.sortedFields.map Field.range := by
  refine map_eq_map_of_forall₂ ((forall₂_of_equivalentBody h).imp fun f g hfg => ?_)
  simp only [Field.equivalent, Bool.and_eq_true, beq_iff_eq] at hfg
  obtain ⟨⟨⟨⟨⟨⟨⟨haccess, hoffset⟩, hwidth⟩, -⟩, -⟩, -⟩, -⟩, -⟩ := hfg
  rw [Field.range, Field.range, haccess, hoffset, hwidth]

/-- Registers that are alike have the same ranges of fields. -/
theorem bits_eq_of_equivalentBody {a b : Register} {i j : Option String} {cmp : Comparison}
    (h : a.equivalentBody b i j cmp = true) : a.bits = b.bits := by
  have hsort (r : Register) : r.bits = (r.sortedFields.map Field.range).toFinset :=
    List.toFinset_eq_of_perm _ _ ((List.mergeSort_perm _ _).symm.map _)
  rw [hsort a, hsort b, ranges_eq_of_equivalentBody h]

end Register

namespace Instance

/-- What stands at the address of the instance. -/
def word (w : Instance) : Word where
  address := w.address
  width := w.register.width
  access := w.register.access
  resetValue := w.register.resetValue
  resetMask := w.register.resetMask
  bits := w.register.bits

/-- The name of the instance, with its index in the place of the placeholder. -/
def name (w : Instance) : String := Member.elementName w.register.name w.register.dim w.index

end Instance

/-! ## Folding -/

namespace Arrays

/-- Strictly compared registers are folded into an array of the same words. -/
theorem preserves_word (peripheral : String) :
    Site.Preserves Instance.word ⟨peripheral, {}⟩ where
  first := by
    intro r s hs _ address is
    obtain ⟨-, rfl, -⟩ := Site.seed?_eq_some hs
    rfl
  next := by
    intro r s hs _ n v i htakes address is _
    obtain ⟨-, rfl, hcomparison, -⟩ := Site.seed?_eq_some hs
    obtain ⟨w, hw, -, -, -, hequivalent⟩ := Seed.takes?_eq_some htakes
    cases hw
    rw [Register.equivalent, Bool.and_eq_true] at hequivalent
    have hbits := Register.bits_eq_of_equivalentBody hequivalent.1
    have hbody := hequivalent.1
    simp only [Register.equivalentBody, hcomparison, Bool.false_or, Bool.and_eq_true,
      beq_iff_eq] at hbody
    obtain ⟨⟨⟨⟨⟨hwidth, -⟩, -⟩, haccess⟩, hvalue, hmask⟩, -⟩ := hbody
    show Word.mk address s.register.width s.register.access s.register.resetValue
      s.register.resetMask s.register.bits = _
    rw [hwidth, haccess, hvalue, hmask, hbits]
    rfl

/-- With a rule that restores names, registers are folded into an array with the same names. -/
theorem preserves_name {site : Site} (h : (ruleOf site.peripheral).Restores) :
    Site.Preserves Instance.name site where
  first := by
    intro r s hs hr address is
    obtain ⟨hsingle, rfl, -, hrule, hsplit⟩ := Site.seed?_eq_some hs
    rw [← hrule] at h
    show Member.elementName s.array (some ⟨s.register.elementSize, s.index :: is⟩) 0 =
      Member.elementName s.register.name s.register.dim 0
    rw [(isSingle_iff.1 hsingle).2.2]
    exact elementName_of_split? h hsplit hr hsplit rfl _
  next := by
    intro r s hs hr n v i htakes address is hplace
    obtain ⟨-, rfl, -, hrule, hsplit⟩ := Site.seed?_eq_some hs
    obtain ⟨w, hw, hsingle, hsplit', -⟩ := Seed.takes?_eq_some htakes
    cases hw
    rw [← hrule] at h
    show Member.elementName s.array (some ⟨s.register.elementSize, is⟩) n =
      Member.elementName v.name v.dim 0
    rw [(isSingle_iff.1 hsingle).2.2]
    exact elementName_of_split? h hsplit hr hsplit' hplace _

theorem Site.Preserves.pair {α β : Type} {k : Instance → α} {l : Instance → β} {site : Site}
    (hk : site.Preserves k) (hl : site.Preserves l) : site.Preserves fun w => (k w, l w) where
  first hs hr address is := Prod.ext (hk.first hs hr address is) (hl.first hs hr address is)
  next hs hr _ _ _ htakes address is hplace :=
    Prod.ext (hk.next hs hr htakes address is hplace) (hl.next hs hr htakes address is hplace)

end Arrays

namespace Peripheral

open Arrays Element

/-- A peripheral that could be folded tells of its words what it told before. -/
theorem foldArrays_keys {α : Type} {key : Instance → α} {cmp : Comparison} {p : Peripheral}
    (hkey : Site.Preserves key ⟨p.name, cmp⟩) (hp : p.derivedFrom = none)
    (hintact : isIntactAll p.registers = true) (h : (p.foldArrays cmp).failure = none) :
    ((instancesAll 0 (p.foldArrays cmp).state.registers).map key).Perm
      ((instancesAll 0 p.registers).map key) := by
  unfold foldArrays at h ⊢
  rw [isDerived, hp, Option.isSome_none, if_neg Bool.false_ne_true] at h ⊢
  cases hfold : Site.fold ⟨p.name, cmp⟩ p.registers with
  | mk es f =>
    rw [hfold] at h
    cases f with
    | some f => cases h
    | none =>
      have hkeys := keys_fold hkey (congrArg Prod.snd hfold) 0
      rw [hfold, keys, keys, compactAll_of_isIntactAll _ hintact] at hkeys
      exact ((instancesAll_sortAll 0 (compactAll es)).map key).trans hkeys

/-- Folding keeps the register map: the words of a peripheral, and their names unless the
peripheral is one of the two whose rule changes names. -/
theorem foldArrays_words (p : Peripheral) (hp : p.derivedFrom = none)
    (hintact : isIntactAll p.registers = true) (h : (p.foldArrays {}).failure = none) :
    ((instancesAll 0 (p.foldArrays {}).state.registers).map Instance.word).Perm
      ((instancesAll 0 p.registers).map Instance.word) ∧
    (p.name ≠ "LTC" → p.name ≠ "LTC0" →
      ((instancesAll 0 (p.foldArrays {}).state.registers).map fun w => (w.name, w.word)).Perm
        ((instancesAll 0 p.registers).map fun w => (w.name, w.word))) := by
  have hword := preserves_word p.name
  refine ⟨foldArrays_keys hword hp hintact h, fun hLTC hLTC0 => ?_⟩
  have hname : Site.Preserves Instance.name ⟨p.name, {}⟩ :=
    preserves_name (ruleOf_restores hLTC hLTC0)
  exact foldArrays_keys (hname.pair hword) hp hintact h

/-- Delay registers with the index inside their names, one of them twice as wide, in two modules. -/
private def delays : Peripheral :=
  { name := "PDB", baseAddress := 0,
    registers := [
      .cluster { name := "M%s", dim := some { indexes := ["A", "B"], stride := 32 } }
        [.register (.plain "CH1D" 4 32), .register (.plain "CH0D" 0 32),
          .register (.plain "CH2D" 8 64)]] }

theorem foldArrays_words_delays :
    delays.derivedFrom = none ∧ isIntactAll delays.registers = true ∧
    (delays.foldArrays {}).failure = none ∧
    (registersAll (delays.foldArrays {}).state.registers).map Register.name =
      ["CH%sD", "CH2D"] ∧
    ((instancesAll 0 (delays.foldArrays {}).state.registers).map fun w => (w.name, w.word)).Perm
      ((instancesAll 0 delays.registers).map fun w => (w.name, w.word)) := by
  have hfold : (delays.foldArrays {}).map (fun p => (registersAll p.registers).map Register.name) =
      .pure ["CH%sD", "CH2D"] := by cbv
  have hdone : (delays.foldArrays {}).failure = none := congrArg Outcome.failure hfold
  exact ⟨rfl, rfl, hdone, congrArg Outcome.state hfold,
    (foldArrays_words delays rfl rfl hdone).2 (by decide) (by decide)⟩

end Peripheral

end RegisterMap
