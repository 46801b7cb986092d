import Mathlib.Data.List.Permutation
import RegisterMap.Header.Member
import RegisterMap.Peripheral
import RegisterMap.Proofs.Layout.Outline

/-!
# Shared structures

Structurally equal peripherals can share a typedef: their registers are laid out alike, and the
texts of the structures differ in the descriptions of registers at most.
-/

namespace RegisterMap

namespace Member

mutual

/-- But for descriptions, the members of a declaration are those of its outline. -/
theorem ofDecl_undescribed (bytePadding : Bool) (gaps : Nat) :
    (d : Decl) → ofDecl bytePadding gaps d.undescribed = ofDecl bytePadding gaps d.outline
  | .register r _ => by
    cases hd : r.dim <;>
      simp only [Decl.undescribed, Decl.outline, Decl.mapHeads, ofDecl, Register.outline, hd] <;>
      rfl
  | .element _ _ _ => rfl
  | .cluster c _ _ ds => by
    simp only [Decl.undescribed, Decl.outline, Decl.mapHeads, ofDecl,
      ofDecls_undescribed bytePadding gaps ds]
    rfl
  | .union _ _ ds => by
    simp only [Decl.undescribed, Decl.outline, Decl.mapHeads, ofDecl,
      ofDecls_undescribed bytePadding gaps ds]
  | .struct _ _ ds => by
    simp only [Decl.undescribed, Decl.outline, Decl.mapHeads, ofDecl,
      ofDecls_undescribed bytePadding gaps ds]
  | .reserved _ _ => rfl

theorem ofDecls_undescribed (bytePadding : Bool) (gaps : Nat) : (ds : List Decl) →
    ofDecls bytePadding gaps (Decl.mapHeadsAll (fun r => { r with description := "" }) id ds) =
      ofDecls bytePadding gaps (Decl.mapHeadsAll Register.outline Cluster.outline ds)
  | [] => rfl
  | d :: ds => by
    have hd := ofDecl_undescribed bytePadding gaps d
    simp only [Decl.undescribed, Decl.outline] at hd
    simp only [Decl.mapHeadsAll, ofDecls, hd,
      fun gaps => ofDecls_undescribed bytePadding gaps ds]

end

end Member

/-- The text of the members of a structure with these declarations, so many columns from the
left. -/
def structText (bytePadding : Bool) (indent : Nat) (ds : List Decl) : Except Failure String := do
  let members ← Member.ofLayout bytePadding ds
  return String.join ((Member.linesOf indent members).map (· ++ "\n"))

theorem structText_undescribed (bytePadding : Bool) (indent : Nat) (ds : List Decl) :
    structText bytePadding indent (ds.map Decl.undescribed) =
      structText bytePadding indent (ds.map Decl.outline) := by
  have hmembers := Member.ofDecls_undescribed bytePadding 0 ds
  rw [Decl.mapHeadsAll_eq_map, Decl.mapHeadsAll_eq_map] at hmembers
  have hlayout : Member.ofLayout bytePadding (ds.map Decl.undescribed) =
      Member.ofLayout bytePadding (ds.map Decl.outline) := by
    unfold Member.ofLayout
    exact congrArg (fun r => r >>= fun r => pure r.1) hmembers
  rw [structText, hlayout, structText]

namespace Peripheral

theorem outline_layout_of_equivalent {a b : Peripheral} {cmp : Comparison}
    (hcmp : cmp.ignoreAccess = false) (h : a.equivalent b cmp = true) :
    (layout a.registers).map (List.map Decl.outline) =
      (layout b.registers).map (List.map Decl.outline) := by
  have hsorted : Element.equivalentAll cmp (Element.sortLevel a.registers)
      (Element.sortLevel b.registers) = true := ((Bool.and_eq_true _ _).mp h).2
  rw [← layout_sortLevel a.registers, ← layout_sortLevel b.registers, ← layout_outline,
    ← layout_outline, Element.outlineAll_eq_of_equivalentAll hcmp _ _ hsorted]

/-- **Sharing.** Structurally equal peripherals fail to be laid out alike, or are laid out to
structures that have the same text, descriptions of registers apart. -/
theorem equivalent_text {a b : Peripheral} {cmp : Comparison} (hcmp : cmp.ignoreAccess = false)
    (h : a.equivalent b cmp = true) :
    (∃ f, layout a.registers = .error f ∧ layout b.registers = .error f) ∨
      ∃ ds es, layout a.registers = .ok ds ∧ layout b.registers = .ok es ∧
        ∀ bytePadding indent,
          structText bytePadding indent (ds.map Decl.undescribed) =
            structText bytePadding indent (es.map Decl.undescribed) := by
  have houtline := outline_layout_of_equivalent hcmp h
  cases ha : layout a.registers with
  | error f =>
    cases hb : layout b.registers with
    | error g =>
      rw [ha, hb] at houtline
      exact .inl ⟨f, rfl, houtline.symm⟩
    | ok es =>
      rw [ha, hb] at houtline
      cases houtline
  | ok ds =>
    cases hb : layout b.registers with
    | error g =>
      rw [ha, hb] at houtline
      cases houtline
    | ok es =>
      rw [ha, hb] at houtline
      have hds : ds.map Decl.outline = es.map Decl.outline := Except.ok.inj houtline
      refine .inr ⟨ds, es, rfl, rfl, fun bytePadding indent => ?_⟩
      rw [structText_undescribed, structText_undescribed, hds]

/-- Two channels of a data and a control register each, described in one language. -/
private def listed : Peripheral :=
  { name := "SPI0", baseAddress := 0x1000,
    registers := [
      .cluster { name := "CH%s", dim := some { indexes := ["0", "1"], stride := 8 } }
        [.register { Register.plain "DATA" 0 32 with description := "Data" },
          .register { Register.plain "CTRL" 4 16 with description := "Control" }],
      .register { Register.plain "STAT" 16 8 with description := "Status" }] }

/-- The same registers, listed otherwise and described in another language. -/
private def relisted : Peripheral :=
  { name := "SPI1", baseAddress := 0x2000,
    registers := [
      .register { Register.plain "STAT" 16 8 with description := "Zustand" },
      .cluster { name := "CH%s", dim := some { indexes := ["0", "1"], stride := 8 } }
        [.register { Register.plain "DATA" 0 32 with description := "Daten" },
          .register { Register.plain "CTRL" 4 16 with description := "Steuerung" }]] }

theorem equivalent_text_relisted :
    listed.equivalent relisted {} = true ∧ ∃ ds es,
      layout listed.registers = .ok ds ∧ layout relisted.registers = .ok es ∧
        structText false 3 (ds.map Decl.undescribed) =
          structText false 3 (es.map Decl.undescribed) := by
  have h : listed.equivalent relisted {} = true := by cbv
  refine ⟨h, ?_⟩
  rcases equivalent_text rfl h with ⟨f, hf, -⟩ | ⟨ds, es, hds, hes, htext⟩
  · have hok : (layout listed.registers).toOption.isSome = true := by cbv
    rw [hf] at hok
    cases hok
  · exact ⟨ds, es, hds, hes, htext false 3⟩

end Peripheral

end RegisterMap
