import Mathlib
import RegisterMap.Proofs.Clusters.Members

/-!
# Layouts of grouped registers

After registers were grouped into arrays of clusters there is a layout exactly when every member of
an array ends before the next cluster begins, which the rules do not see to. A member has the width,
access, dimensions and fields of the first instance, and so of every instance as far as these are
alike, which the rules do not see to either (`Peripheral.groupClusters_layout`,
`Peripheral.groupClusters_unchecked`).
-/

namespace RegisterMap

/-- The registers have the same width, access and dimensions, and fields in the same bits. -/
structure Register.Alike (r s : Register) : Prop where
  width_eq : r.width = s.width
  access_eq : r.access = s.access
  dim_eq : r.dim = s.dim
  bits_eq : (r.fields.map fun f => (f.bitOffset, f.bitWidth)) =
    s.fields.map fun f => (f.bitOffset, f.bitWidth)

namespace Clusters

open Element

/-- Elements of which each can be declared if one that was there can, or is an array, have a layout
exactly when their arrays of clusters have room for their members. -/
theorem Reached.layout_iff {rules : List Rule} {es fs : List Element} (h : Reached rules es fs)
    {ds : List Decl} (hlayout : layout es = .ok ds) :
    (∃ ds', layout fs = .ok ds') ↔ ∀ c members d, .cluster c members ∈ visible fs →
      c.dim = some d → ∀ m ∈ visible members, m.IsDeclarable ∧ m.fin ≤ d.stride := by
  rw [layout_isOk_iff]
  constructor
  · intro hfs c members d hc hd m hm
    obtain ⟨hdeclarable, hfit⟩ := isDeclarable_cluster_iff.1 (hfs _ hc) m hm
    exact ⟨hdeclarable, hfit d hd⟩
  · intro hfit e he
    obtain ⟨hmem, hvisible⟩ := mem_visible_iff.1 he
    rcases h.declarable e hmem with ⟨x, hx, hflags, hdeclarable⟩ | ⟨c, members, rfl, hdim⟩
    · exact hdeclarable (layout_isOk_iff.1 ⟨ds, hlayout⟩ x
        (mem_visible_iff.2 ⟨hx, by rw [hflags, hvisible]⟩))
    · obtain ⟨d, hd⟩ := Option.isSome_iff_exists.1 hdim
      refine isDeclarable_cluster_iff.2 fun m hm => ?_
      obtain ⟨hmdeclarable, hmfit⟩ := hfit c members d he hd m hm
      refine ⟨hmdeclarable, fun d' hd' => ?_⟩
      cases hd.symm.trans hd'
      exact hmfit

/-- A folded register is alike to the member that stands for it if it is to the first instance. -/
theorem Rule.Folded.alike {rule : Rule} {es fs : List Element} {c : Cluster} {m f s : Register}
    (h : rule.Folded es fs c m f s) (hfirst : f.Alike s) : m.Alike s := by
  rw [h.member_eq]
  exact ⟨hfirst.width_eq, hfirst.access_eq, hfirst.dim_eq, hfirst.bits_eq⟩

end Clusters

namespace Peripheral

open Clusters

/-- **Clusters and layout.** Grouping never fails. A peripheral with a layout still has one exactly
when its arrays of clusters have room for their members. Each register stays or is folded: a member
stands for it at its own offset. If the instances of each member are alike, each folded register is
alike to the member. -/
theorem groupClusters_layout {p : Peripheral} {ds : List Decl}
    (h : layout p.registers = .ok ds) :
    p.groupClusters.failure = none ∧
    ((∃ ds', layout p.groupClusters.state.registers = .ok ds') ↔
      ∀ c members d, .cluster c members ∈ Element.visible p.groupClusters.state.registers →
        c.dim = some d → ∀ m ∈ Element.visible members, m.IsDeclarable ∧ m.fin ≤ d.stride) ∧
    (∀ s, .register s ∈ p.registers → s.deleted = false →
      .register s ∈ p.groupClusters.state.registers ∨ ∃ rule ∈ rulesOf p.name, ∃ c m f,
        rule.Folded p.registers p.groupClusters.state.registers c m f s) ∧
    ((∀ rule ∈ rulesOf p.name, ∀ r s, .register r ∈ p.registers → r.deleted = false →
        .register s ∈ p.registers → s.deleted = false → rule.SameMember r s → r.Alike s) →
      ∀ s, .register s ∈ p.registers → s.deleted = false →
        .register s ∈ p.groupClusters.state.registers ∨ ∃ rule ∈ rulesOf p.name, ∃ c m f,
          rule.Folded p.registers p.groupClusters.state.registers c m f s ∧ m.Alike s) := by
  obtain ⟨hnone, hreached⟩ := p.reached_groupClusters
  refine ⟨hnone, hreached.layout_iff h, hreached.unfolded, fun halike s hs hintact => ?_⟩
  rcases hreached.unfolded s hs hintact with hkept | ⟨rule, hrule, c, m, f, hfolded⟩
  · exact .inl hkept
  · exact .inr ⟨rule, hrule, c, m, f, hfolded, hfolded.alike
      (halike rule hrule f s hfolded.first_mem hfolded.first_intact hs hintact hfolded.sameMember)⟩

section Example

/-- A timer with a control and a value register for each of its two channels. -/
private def timer (control value stride : Nat) : Peripheral :=
  { name := "FTM0", baseAddress := 0,
    registers := [.register (.plain "C0SC" control 32), .register (.plain "C0V" value 32),
      .register (.plain "C1SC" (control + stride) 32),
      .register (.plain "C1V" (value + stride) 32)] }

private def channels (value stride : Nat) : List Element :=
  [.cluster { name := "CONTROLS,@pC@i@f", dim := some (.counted stride 2) }
    [.register (.plain "CnSC" 0 32), .register (.plain "CnV" value 32)]]

private theorem exists_layout_timer (control value stride : Nat) :
    ∃ ds, layout (timer control value stride).registers = .ok ds := by
  refine layout_isOk_iff.2 fun e he => ?_
  have he := (Element.mem_visible_iff.1 he).1
  simp only [timer, List.mem_cons, List.not_mem_nil, or_false] at he
  rcases he with rfl | rfl | rfl | rfl <;>
    exact Element.isDeclarable_register_iff.2 (.inl rfl)

/-- The channels lie one behind the other. -/
theorem groupClusters_layout_interleaved :
    ∃ ds ds', layout (timer 0 4 8).registers = .ok ds ∧
      (timer 0 4 8).groupClusters.failure = none ∧
      (timer 0 4 8).groupClusters.state.registers = channels 4 8 ∧
      layout (timer 0 4 8).groupClusters.state.registers = .ok ds' := by
  have hgrouped : (timer 0 4 8).groupClusters.state.registers = channels 4 8 := by cbv
  obtain ⟨ds, hlayout⟩ := exists_layout_timer 0 4 8
  obtain ⟨hnone, hiff, -⟩ := groupClusters_layout hlayout
  obtain ⟨ds', hlayout'⟩ := hiff.2 fun c members d hc hd m hm => by
    rw [hgrouped] at hc
    cases List.mem_singleton.1 (Element.mem_visible_iff.1 hc).1
    cases hd
    have hm := (Element.mem_visible_iff.1 hm).1
    simp only [List.mem_cons, List.not_mem_nil, or_false] at hm
    rcases hm with rfl | rfl
    · exact ⟨Element.isDeclarable_register_iff.2 (.inl rfl), by decide⟩
    · exact ⟨Element.isDeclarable_register_iff.2 (.inl rfl), by decide⟩
  exact ⟨ds, ds', hlayout, hnone, hgrouped, hlayout'⟩

/-- A timer whose channels have control registers of different widths. -/
private def unequal : Peripheral :=
  { name := "FTM0", baseAddress := 0,
    registers := [.register (.plain "C0SC" 0 32), .register (.plain "C1SC" 4 16)] }

/-- Registers of one kind after the other are grouped all the same, and can no longer be laid out;
and so are registers of different widths, one of which takes the place of the other. -/
theorem groupClusters_unchecked :
    ((∃ ds, layout (timer 0 8 4).registers = .ok ds) ∧
      (timer 0 8 4).groupClusters.failure = none ∧
      (timer 0 8 4).groupClusters.state.registers = channels 8 4 ∧
      ¬∃ ds, layout (timer 0 8 4).groupClusters.state.registers = .ok ds) ∧
    unequal.groupClusters.state.registers =
      [.cluster { name := "CONTROLS,@pC@i@f", dim := some (.counted 4 2) }
        [.register (.plain "CnSC" 0 32)]] := by
  have hgrouped : (timer 0 8 4).groupClusters.state.registers = channels 8 4 := by cbv
  refine ⟨⟨exists_layout_timer 0 8 4, (timer 0 8 4).reached_groupClusters.1, hgrouped, ?_⟩, by cbv⟩
  rw [hgrouped, layout_isOk_iff]
  intro h
  have hcluster := h _ (Element.mem_visible_iff.2 ⟨List.mem_singleton_self _, rfl⟩)
  have hvalue : Element.register (.plain "CnV" 8 32) ∈
      Element.visible [.register (.plain "CnSC" 0 32), .register (.plain "CnV" 8 32)] :=
    Element.mem_visible_iff.2 ⟨List.mem_cons_of_mem _ (List.mem_singleton_self _), rfl⟩
  have hfit := (Element.isDeclarable_cluster_iff.1 hcluster _ hvalue).2 _ rfl
  exact absurd hfit (by decide)

end Example

end Peripheral

end RegisterMap
