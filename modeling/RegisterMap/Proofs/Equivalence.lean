import Mathlib.Data.List.Forall2
import RegisterMap.Peripheral

/-!
# Structural equality

Structural equality of fields, registers, elements and peripherals is reflexive, symmetric and, as
long as no indexes are taken out, transitive. Symmetry of fields and registers exchanges the indexes
that are taken out along with the two sides. For peripherals this makes it an equivalence relation,
to which their names, descriptions, addresses, interrupts and address blocks are all the same
(`equivalent_equivalence`).
-/

namespace RegisterMap

variable {α β : Type}

theorem all_zip_self {r : α → α → Bool} (h : ∀ a, r a a = true) (as : List α) :
    ((as.zip as).all fun (a, b) => r a b) = true := by
  induction as with
  | nil => rfl
  | cons a as ih => simp only [List.zip_cons_cons, List.all_cons, h, ih, Bool.and_self]

theorem all_zip_comm {r s : α → α → Bool} (h : ∀ a b, r a b = s b a) (as bs : List α) :
    ((as.zip bs).all fun (a, b) => r a b) = (bs.zip as).all fun (b, a) => s b a := by
  induction as generalizing bs with
  | nil => cases bs <;> rfl
  | cons a as ih =>
    cases bs with
    | nil => rfl
    | cons b bs =>
      rw [List.zip_cons_cons, List.zip_cons_cons, List.all_cons, List.all_cons, ih]
      exact congrArg (· && _) (h a b)

theorem all_zip_trans {r : α → α → Bool} (h : ∀ {a b c}, r a b = true → r b c = true → r a c = true)
    {as bs cs : List α} (hlength : as.length ≤ bs.length)
    (hab : ((as.zip bs).all fun (a, b) => r a b) = true)
    (hbc : ((bs.zip cs).all fun (b, c) => r b c) = true) :
    ((as.zip cs).all fun (a, c) => r a c) = true := by
  induction as generalizing bs cs with
  | nil => rfl
  | cons a as ih =>
    cases bs with
    | nil => exact absurd hlength (Nat.not_succ_le_zero _)
    | cons b bs =>
      cases cs with
      | nil => rfl
      | cons c cs =>
        simp only [List.zip_cons_cons, List.all_cons, Bool.and_eq_true] at hab hbc ⊢
        exact ⟨h hab.1 hbc.1, ih (Nat.le_of_succ_le_succ hlength) hab.2 hbc.2⟩

theorem forall₂_of_all_zip {R : α → β → Bool} {as : List α} {bs : List β}
    (hlength : as.length = bs.length) (h : ((as.zip bs).all fun (a, b) => R a b) = true) :
    List.Forall₂ (fun a b => R a b = true) as bs :=
  List.forall₂_iff_zip.2 ⟨hlength, fun hmem => List.all_eq_true.1 h _ hmem⟩

theorem Text.sameLetters_trans {a b c : String} (hab : sameLetters a b = true)
    (hbc : sameLetters b c = true) : sameLetters a c = true := by
  simp only [sameLetters, beq_iff_eq] at hab hbc ⊢
  exact hab.trans hbc

theorem Enumeration.equivalent_trans {a b c : Enumeration} {i j k : Option String}
    (hab : a.equivalent b i j = true) (hbc : b.equivalent c j k = true) :
    a.equivalent c i k = true := by
  simp only [equivalent, Bool.and_eq_true, beq_iff_eq] at hab hbc ⊢
  obtain ⟨⟨hmask, hvalue⟩, hletters⟩ := hab
  obtain ⟨⟨hmask', hvalue'⟩, hletters'⟩ := hbc
  exact ⟨⟨hmask.trans hmask', hvalue.trans hvalue'⟩, Text.sameLetters_trans hletters hletters'⟩

theorem Enumeration.equivalent_self (e : Enumeration) (i : Option String) :
    e.equivalent e i i = true := by
  simp [equivalent, Text.sameLetters_self]

namespace Field

theorem covered_self (es : List Enumeration) (i : Option String) : covered es es i i = true :=
  List.all_eq_true.2 fun e he => List.any_eq_true.2 ⟨e, he, e.equivalent_self i⟩

theorem covered_trans {as bs cs : List Enumeration} {i j k : Option String}
    (hab : covered as bs i j = true) (hbc : covered bs cs j k = true) :
    covered as cs i k = true := by
  refine List.all_eq_true.2 fun a ha => ?_
  obtain ⟨b, hb, hab⟩ := List.any_eq_true.1 (List.all_eq_true.1 hab a ha)
  obtain ⟨c, hc, hbc⟩ := List.any_eq_true.1 (List.all_eq_true.1 hbc b hb)
  exact List.any_eq_true.2 ⟨c, hc, Enumeration.equivalent_trans hab hbc⟩

/-- With indexes to take out this fails: one name may be like the second as it is, and that one
like the third without its index. -/
theorem equivalent_trans {f g h : Field} (hfg : f.equivalent g none none = true)
    (hgh : g.equivalent h none none = true) : f.equivalent h none none = true := by
  simp only [equivalent, Placeholder.insert_none, Bool.or_self, Bool.and_eq_true,
    beq_iff_eq] at hfg hgh ⊢
  obtain ⟨⟨⟨⟨⟨⟨⟨haccess, hoffset⟩, hwidth⟩, hderived⟩, hcount⟩, hname⟩, hleft⟩, hright⟩ := hfg
  obtain ⟨⟨⟨⟨⟨⟨⟨haccess', hoffset'⟩, hwidth'⟩, hderived'⟩, hcount'⟩, hname'⟩, hleft'⟩, hright'⟩ :=
    hgh
  exact ⟨⟨⟨⟨⟨⟨⟨haccess.trans haccess', hoffset.trans hoffset'⟩, hwidth.trans hwidth'⟩,
    hderived.trans hderived'⟩, hcount.trans hcount'⟩, Text.sameLetters_trans hname hname'⟩,
    covered_trans hleft hleft'⟩, covered_trans hright' hright⟩

theorem equivalent_self (f : Field) (i : Option String) : f.equivalent f i i = true := by
  simp [equivalent, Text.sameLetters_self, covered_self]

theorem equivalent_comm (f g : Field) (i j : Option String) :
    f.equivalent g i j = g.equivalent f j i := by
  simp only [equivalent, Bool.beq_comm (a := f.access), Bool.beq_comm (a := f.bitOffset),
    Bool.beq_comm (a := f.bitWidth), Bool.beq_comm (a := f.derivedFrom),
    Bool.beq_comm (a := f.enumerations.length), Text.sameLetters_comm f.name,
    Text.sameLetters_comm (Placeholder.insert i f.name)]
  exact Bool.and_right_comm _ _ _

end Field

namespace Register

theorem equivalentBody_self (r : Register) (i : Option String) (cmp : Comparison) :
    r.equivalentBody r i i cmp = true := by
  have hfields := all_zip_self (r := fun f g => f.equivalent g i i)
    (fun f => f.equivalent_self i) r.sortedFields
  simp only [equivalentBody, beq_self_eq_true, Bool.or_true, Bool.and_self, hfields]

theorem equivalentBody_comm (r s : Register) (i j : Option String) (cmp : Comparison) :
    r.equivalentBody s i j cmp = s.equivalentBody r j i cmp := by
  have hfields := all_zip_comm (r := fun f g => f.equivalent g i j)
    (fun f g => f.equivalent_comm g i j) r.sortedFields s.sortedFields
  simp only [equivalentBody, hfields, Bool.beq_comm (a := r.width),
    Bool.beq_comm (a := r.fields.length), Bool.beq_comm (a := r.dim),
    Bool.beq_comm (a := r.access), Bool.beq_comm (a := r.resetValue),
    Bool.beq_comm (a := r.resetMask)]

theorem equivalent_comm (r s : Register) (i j : Option String) (cmp : Comparison) :
    r.equivalent s i j cmp = s.equivalent r j i cmp := by
  rw [equivalent, equivalent, equivalentBody_comm, Text.sameLetters_comm]

/-- The fields of registers that are alike are equivalent in order. -/
theorem forall₂_of_equivalentBody {r s : Register} {i j : Option String} {cmp : Comparison}
    (h : r.equivalentBody s i j cmp = true) :
    List.Forall₂ (fun f g => f.equivalent g i j = true) r.sortedFields s.sortedFields := by
  simp only [equivalentBody, Bool.and_eq_true, beq_iff_eq] at h
  obtain ⟨⟨⟨⟨⟨-, hcount⟩, -⟩, -⟩, -⟩, hfields⟩ := h
  refine forall₂_of_all_zip ?_ hfields
  rw [sortedFields, sortedFields, List.length_mergeSort, List.length_mergeSort, hcount]

theorem equivalentLayout_trans {r s t : Register} {cmp : Comparison}
    (hrs : r.equivalentLayout s cmp = true) (hst : s.equivalentLayout t cmp = true) :
    r.equivalentLayout t cmp = true := by
  simp only [equivalentLayout, equivalentBody, Bool.and_eq_true, beq_iff_eq,
    Bool.or_eq_true] at hrs hst ⊢
  obtain ⟨⟨⟨⟨⟨hwidth, hcount⟩, hdim⟩, haccess⟩, hreset⟩, hfields⟩ := hrs
  obtain ⟨⟨⟨⟨⟨hwidth', hcount'⟩, hdim'⟩, haccess'⟩, hreset'⟩, hfields'⟩ := hst
  have hlength : r.sortedFields.length ≤ s.sortedFields.length := by
    simp only [sortedFields, List.length_mergeSort, hcount, Nat.le_refl]
  refine ⟨⟨⟨⟨⟨hwidth.trans hwidth', hcount.trans hcount'⟩, hdim.trans hdim'⟩, ?_⟩, ?_⟩,
    all_zip_trans (r := fun f g => f.equivalent g none none) Field.equivalent_trans hlength hfields
      hfields'⟩
  · exact haccess.elim .inl fun h => haccess'.imp_right h.trans
  · exact hreset.elim .inl fun h => hreset'.imp_right fun h' =>
      ⟨h.1.trans h'.1, h.2.trans h'.2⟩

end Register

namespace Element

variable (cmp : Comparison)

mutual

theorem equivalent_self : (e : Element) → e.equivalent cmp e = true
  | .register r => by
    simp only [equivalent, beq_self_eq_true, Bool.and_self, Register.equivalentLayout,
      Register.equivalentBody_self]
  | .cluster c es => by
    simp only [equivalent, beq_self_eq_true, Bool.and_self, equivalentAll_self es]

theorem equivalentAll_self : (es : List Element) → equivalentAll cmp es es = true
  | [] => rfl
  | e :: es => by rw [equivalentAll, equivalent_self e, equivalentAll_self es, Bool.and_self]

end

mutual

theorem equivalent_comm : (e f : Element) → e.equivalent cmp f = f.equivalent cmp e
  | .register r, .register s => by
    simp only [equivalent, Register.equivalentLayout, Register.equivalentBody_comm r s,
      Bool.beq_comm (a := r.name), Bool.beq_comm (a := r.offset),
      Bool.beq_comm (a := r.derivedFrom), Bool.beq_comm (a := r.flags)]
  | .cluster c es, .cluster d fs => by
    simp only [equivalent, equivalentAll_comm es fs, Bool.beq_comm (a := c.name),
      Bool.beq_comm (a := c.offset), Bool.beq_comm (a := c.dim), Bool.beq_comm (a := c.flags)]
  | .register _, .cluster _ _ => rfl
  | .cluster _ _, .register _ => rfl

theorem equivalentAll_comm : (es fs : List Element) →
    equivalentAll cmp es fs = equivalentAll cmp fs es
  | [], [] => rfl
  | e :: es, f :: fs => by
    rw [equivalentAll, equivalentAll, equivalent_comm e f, equivalentAll_comm es fs]
  | [], _ :: _ => rfl
  | _ :: _, [] => rfl

end

mutual

theorem equivalent_trans : (e f g : Element) → e.equivalent cmp f = true →
    f.equivalent cmp g = true → e.equivalent cmp g = true
  | .register r, .register s, .register t, hrs, hst => by
    simp only [equivalent, Bool.and_eq_true, beq_iff_eq] at hrs hst ⊢
    obtain ⟨⟨⟨⟨hname, hoffset⟩, hderived⟩, hflags⟩, hlayout⟩ := hrs
    obtain ⟨⟨⟨⟨hname', hoffset'⟩, hderived'⟩, hflags'⟩, hlayout'⟩ := hst
    exact ⟨⟨⟨⟨hname.trans hname', hoffset.trans hoffset'⟩, hderived.trans hderived'⟩,
      hflags.trans hflags'⟩, Register.equivalentLayout_trans hlayout hlayout'⟩
  | .cluster c es, .cluster d fs, .cluster b gs, hcd, hdb => by
    simp only [equivalent, Bool.and_eq_true, beq_iff_eq] at hcd hdb ⊢
    obtain ⟨⟨⟨⟨hname, hoffset⟩, hdim⟩, hflags⟩, hes⟩ := hcd
    obtain ⟨⟨⟨⟨hname', hoffset'⟩, hdim'⟩, hflags'⟩, hfs⟩ := hdb
    exact ⟨⟨⟨⟨hname.trans hname', hoffset.trans hoffset'⟩, hdim.trans hdim'⟩,
      hflags.trans hflags'⟩, equivalentAll_trans es fs gs hes hfs⟩
  | .register _, .cluster _ _, _, h, _ => nomatch h
  | .cluster _ _, .register _, _, h, _ => nomatch h
  | .register _, .register _, .cluster _ _, _, h => nomatch h
  | .cluster _ _, .cluster _ _, .register _, _, h => nomatch h

theorem equivalentAll_trans : (es fs gs : List Element) → equivalentAll cmp es fs = true →
    equivalentAll cmp fs gs = true → equivalentAll cmp es gs = true
  | [], [], [], _, _ => rfl
  | e :: es, f :: fs, g :: gs, hef, hfg => by
    rw [equivalentAll, Bool.and_eq_true] at hef hfg ⊢
    exact ⟨equivalent_trans e f g hef.1 hfg.1, equivalentAll_trans es fs gs hef.2 hfg.2⟩
  | [], _ :: _, _, h, _ => nomatch h
  | _ :: _, [], _, h, _ => nomatch h
  | [], [], _ :: _, _, h => nomatch h
  | _ :: _, _ :: _, [], _, h => nomatch h

end

theorem length_eq_of_equivalentAll : (es fs : List Element) → equivalentAll cmp es fs = true →
    es.length = fs.length
  | [], [], _ => rfl
  | e :: es, f :: fs, h => by
    rw [equivalentAll, Bool.and_eq_true] at h
    rw [List.length_cons, List.length_cons, length_eq_of_equivalentAll es fs h.2]
  | [], _ :: _, h => nomatch h
  | _ :: _, [], h => nomatch h

end Element

namespace Peripheral

theorem equivalent_self (p : Peripheral) (cmp : Comparison) : p.equivalent p cmp = true := by
  simp only [equivalent, beq_self_eq_true, Bool.and_self, Element.equivalentAll_self]

theorem equivalent_comm (p q : Peripheral) (cmp : Comparison) :
    p.equivalent q cmp = q.equivalent p cmp := by
  simp only [equivalent, Element.equivalentAll_comm cmp (Element.sortLevel p.registers),
    Bool.beq_comm (a := p.width), Bool.beq_comm (a := p.access),
    Bool.beq_comm (a := p.resetValue), Bool.beq_comm (a := p.resetMask),
    Bool.beq_comm (a := p.preferredAccessWidth), Bool.beq_comm (a := p.forcedBlockMultiple)]

theorem equivalent_trans {p q r : Peripheral} {cmp : Comparison} (hpq : p.equivalent q cmp = true)
    (hqr : q.equivalent r cmp = true) : p.equivalent r cmp = true := by
  simp only [equivalent, Bool.and_eq_true, beq_iff_eq] at hpq hqr ⊢
  obtain ⟨⟨⟨⟨⟨⟨hwidth, haccess⟩, hvalue⟩, hmask⟩, hpreferred⟩, hforced⟩, hes⟩ := hpq
  obtain ⟨⟨⟨⟨⟨⟨hwidth', haccess'⟩, hvalue'⟩, hmask'⟩, hpreferred'⟩, hforced'⟩, hfs⟩ := hqr
  exact ⟨⟨⟨⟨⟨⟨hwidth.trans hwidth', haccess.trans haccess'⟩, hvalue.trans hvalue'⟩,
    hmask.trans hmask'⟩, hpreferred.trans hpreferred'⟩, hforced.trans hforced'⟩,
    Element.equivalentAll_trans cmp _ _ _ hes hfs⟩

/-- Peripherals with the same structure both have registers or both have none. -/
theorem isEmpty_registers_of_equivalent {p q : Peripheral} {cmp : Comparison}
    (h : p.equivalent q cmp = true) : p.registers.isEmpty = q.registers.isEmpty := by
  have hsorted : Element.equivalentAll cmp (Element.sortLevel p.registers)
      (Element.sortLevel q.registers) = true := ((Bool.and_eq_true _ _).mp h).2
  have hlength := Element.length_eq_of_equivalentAll cmp _ _ hsorted
  rw [(Element.sortLevel_perm _).length_eq, (Element.sortLevel_perm _).length_eq] at hlength
  rw [Bool.eq_iff_iff, List.isEmpty_iff_length_eq_zero, List.isEmpty_iff_length_eq_zero, hlength]

/-- **Structure is an equivalence relation.** Whatever a comparison passes over, to have the same
structure is reflexive, symmetric and transitive among peripherals, and neither side's name,
description, base address, interrupts or address blocks count. Registers that may become elements of
one array are compared alike from both sides, once their indexes change sides with them. -/
theorem equivalent_equivalence (cmp : Comparison) :
    (Equivalence fun p q : Peripheral => p.equivalent q cmp = true) ∧
      (∀ (p q : Peripheral) (name description : String) (baseAddress : Nat)
        (interrupts : List Interrupt) (addressBlocks : List AddressBlock),
        let moved := { p with name, description, baseAddress, interrupts, addressBlocks }
        moved.equivalent q cmp = p.equivalent q cmp ∧
          q.equivalent moved cmp = q.equivalent p cmp) ∧
      ∀ (r s : Register) (i j : Option String),
        r.equivalent s i j cmp = s.equivalent r j i cmp := by
  refine ⟨⟨fun p => p.equivalent_self cmp, ?_, equivalent_trans⟩, ?_,
    fun r s i j => r.equivalent_comm s i j cmp⟩
  · intro p q hpq
    rwa [equivalent_comm]
  · -- None of the five is read on either side.
    exact fun p q _ _ _ _ _ => ⟨rfl, rfl⟩

end Peripheral

end RegisterMap
