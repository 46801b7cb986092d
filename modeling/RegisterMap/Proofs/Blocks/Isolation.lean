import Mathlib.Data.List.Pairwise
import RegisterMap.Proofs.Blocks.Coverage
import RegisterMap.Proofs.Blocks.Separation
import RegisterMap.Proofs.Sorting

/-!
# Isolation

A block has the bytes of observations of one token only, and the words of one instance of an
isolated element have tokens of their own. So where the words of a peripheral are apart, no block
reaches from such an instance to what is outside of it: `Peripheral.createAddressBlocks_isolates`.
-/

namespace RegisterMap

/-- The words have no byte in common. -/
def Instance.Apart (v w : Instance) : Prop := ∀ x, v.Has x → ¬w.Has x

theorem Instance.Apart.symm {v w : Instance} (h : v.Apart w) : w.Apart v :=
  fun x hw hv => h x hv hw

/-- The block has a byte of the word. -/
def AddressBlock.Touches (b : AddressBlock) (w : Instance) : Prop := ∃ x, b.Has x ∧ w.Has x

namespace Peripheral

open Element

/-- Where the words of the observations are apart, a block touches words of one token only. -/
theorem token_eq_of_touches {ms : Marks} (hapart : (ms.map Prod.fst).Pairwise Instance.Apart)
    {kind : Nat × Option Access} {b : AddressBlock}
    (hb : ∀ x, b.Has x → ∃ o ∈ ms.observations, o.kind = kind ∧ o.Has x) {m : Instance × Nat}
    (hm : m ∈ ms) (htouches : b.Touches m.1) : m.2 = kind.1 := by
  obtain ⟨x, hbx, hmx⟩ := htouches
  obtain ⟨o, ho, rfl, hox⟩ := hb x hbx
  obtain ⟨n, hn, rfl⟩ := List.mem_map.1 ho
  have hnm : n = m := by
    by_contra hne
    have : Std.Symm fun m n : Instance × Nat => m.1.Apart n.1 := ⟨fun _ _ h => h.symm⟩
    exact (List.pairwise_map.1 hapart).forall hn hm hne x hox hmx
  rw [← hnm]
  rfl

/-- Without a multiple, or with one of a byte, no block reaches from an instance of an isolated
element to a word outside of it. -/
theorem blocksOf_isolates (p : Peripheral) (hforced : p.forcedBlockMultiple ∈ [0, 8])
    (hapart : (instancesAll 0 p.registers).Pairwise Instance.Apart) :
    ∃ bs, p.blocksOf = .ok bs ∧ ∀ b ∈ bs, ∀ u, IsIsolatedUnit 0 p.registers u → ∀ v ∈ u,
      ∀ w ∈ instancesAll 0 p.registers, w ∉ u → b.Touches v → ¬b.Touches w := by
  have hknown : p.forcedBlockMultiple ∈ [0, 8, 16, 32] := List.mem_append_left [16, 32] hforced
  have hcell : max 1 (p.forcedBlockMultiple / 8) = 1 := by
    rcases List.mem_pair.1 hforced with h | h <;> rw [h] <;> rfl
  have hsorted := pairwise_observations p.registers
  have hblocks := Coalescing.coalesce_eq_sortedBlocks p.preferredAccessWidth hknown hsorted
  refine ⟨_, within_eq_ok.2 hblocks, fun b hb u hu v hv w hw hwu hbv hbw => ?_⟩
  obtain ⟨ms, hperm, hwords, hsecluded⟩ := exists_marks p.registers
  obtain ⟨kind, hkind⟩ := Coalescing.exists_kind_of_mem_coalesce hknown hsorted hblocks hb
  have hbytes : ∀ x, b.Has x → ∃ o ∈ ms.observations, o.kind = kind ∧ o.Has x := by
    intro x hx
    obtain ⟨o, ho, hokind, y, hy, hxy⟩ := hkind x hx
    rw [hcell, sameCell_one] at hxy
    exact ⟨o, hperm.mem_iff.1 ho, hokind, hxy ▸ hy⟩
  rw [← hwords] at hapart hw
  obtain ⟨own, others, hms, rfl, hown⟩ := hsecluded u hu
  obtain ⟨m, hm, rfl⟩ := List.mem_map.1 hv
  obtain ⟨n, hn, rfl⟩ := List.mem_map.1 hw
  have hmtoken := token_eq_of_touches hapart hbytes
    (hms.mem_iff.2 (List.mem_append_left _ hm)) hbv
  have hntoken := token_eq_of_touches hapart hbytes hn hbw
  rcases List.mem_append.1 (hms.mem_iff.1 hn) with hn | hn
  · exact hwu (List.mem_map_of_mem hn)
  · exact (hown m hm).2 n hn (hmtoken.trans hntoken.symm)

end Peripheral

/-! ## Instances of a sorted tree -/

namespace Element

theorem flatten_units (base : Nat) (e : Element) : (e.units base).flatten = e.instances base := by
  cases e with
  | register r => rw [units, ← List.flatMap_def, List.flatMap_singleton']
  | cluster c es => rw [units, instances, List.flatMap_def]

/-- What occurs in the elements has its words among theirs. -/
theorem Occurs.instances_sublist {owner base : Nat} {e : Element} {es : List Element}
    (h : Occurs owner e base es) : (e.instances owner).Sublist (instancesAll base es) := by
  have hmem {base : Nat} {e : Element} {es : List Element} (he : e ∈ es) :
      (e.instances base).Sublist (instancesAll base es) := by
    rw [instancesAll_eq_flatMap, List.flatMap_def]
    exact List.sublist_flatten_of_mem (List.mem_map_of_mem he)
  induction h with
  | here he => exact hmem he
  | inside hc hi _ ih =>
    refine ih.trans (.trans ?_ (hmem hc))
    rw [instances, List.flatMap_def]
    exact List.sublist_flatten_of_mem (List.mem_map_of_mem (List.mem_range.2 hi))

theorem Occurs.sortAll {owner base : Nat} {e : Element} {es : List Element}
    (h : Occurs owner e base es) : Occurs owner e.sortWithin base (sortAll es) := by
  induction h with
  | here he => exact .here (mem_sortAll_iff.2 ⟨_, he, rfl⟩)
  | inside hc hi _ ih => exact .inside (mem_sortAll_iff.2 ⟨_, hc, rfl⟩) hi ih

/-- Sorting an element moves words within its instances only. -/
theorem exists_mem_units_sortWithin {base : Nat} {e : Element} {u : List Instance}
    (h : u ∈ e.units base) : ∃ u' ∈ e.sortWithin.units base, u'.Perm u := by
  cases e with
  | register r => exact ⟨u, h, .refl _⟩
  | cluster c es =>
    obtain ⟨i, hi, rfl⟩ := List.mem_map.1 h
    exact ⟨_, List.mem_map_of_mem hi, instancesAll_sortAll _ es⟩

theorem IsIsolatedUnit.sortAll {base : Nat} {es : List Element} {u : List Instance}
    (h : IsIsolatedUnit base es u) : ∃ u', IsIsolatedUnit base (sortAll es) u' ∧ u'.Perm u := by
  obtain ⟨owner, e, he, hisolated, hu⟩ := h
  obtain ⟨u', hu', hperm⟩ := exists_mem_units_sortWithin hu
  exact ⟨u', ⟨owner, _, he.sortAll, by rwa [flags_sortWithin], hu'⟩, hperm⟩

end Element

namespace Peripheral

open Element

/-- **Isolation.** When the words of a peripheral that has its own registers are apart, and blocks
may begin at any byte, there are address blocks. None of them has bytes both of an instance of an
isolated element and of a word that is not in the instance; in particular none has bytes of two
instances of one isolated element. -/
theorem createAddressBlocks_isolates {p : Peripheral} (hp : p.derivedFrom = none)
    (hforced : p.forcedBlockMultiple ∈ [0, 8])
    (hapart : (instancesAll 0 p.registers).Pairwise Instance.Apart) :
    p.createAddressBlocks.failure = none ∧
      ∀ b ∈ p.createAddressBlocks.state.addressBlocks, ∀ owner e,
        Occurs owner e 0 p.registers → e.flags.isolated = true →
        (∀ u ∈ e.units owner, ∀ v ∈ u, ∀ w ∈ instancesAll 0 p.registers, w ∉ u →
          b.Touches v → ¬b.Touches w) ∧
        (e.units owner).Pairwise fun u u' => ∀ v ∈ u, ∀ w ∈ u', b.Touches v → ¬b.Touches w := by
  have hperm := instancesAll_sortAll 0 p.registers
  obtain ⟨bs, hbs, hisolates⟩ := blocksOf_isolates p.sort hforced
    (hperm.symm.pairwise hapart Instance.Apart.symm)
  have hcreate : p.createAddressBlocks = { state := { p.sort with addressBlocks := bs } } := by
    rw [createAddressBlocks, isDerived, hp, hbs]
    rfl
  rw [hcreate]
  refine ⟨rfl, fun b hb owner e he hisolated => ?_⟩
  have hunit : ∀ u ∈ e.units owner, ∀ v ∈ u, ∀ w ∈ instancesAll 0 p.registers, w ∉ u →
      b.Touches v → ¬b.Touches w := by
    intro u hu v hv w hw hwu
    obtain ⟨u', hu', huu'⟩ := IsIsolatedUnit.sortAll ⟨owner, e, he, hisolated, hu⟩
    exact hisolates b hb u' hu' v (huu'.mem_iff.2 hv) w (hperm.mem_iff.2 hw)
      fun hw => hwu (huu'.mem_iff.1 hw)
  refine ⟨hunit, ?_⟩
  have hwords : (e.units owner).flatten.Sublist (instancesAll 0 p.registers) :=
    flatten_units owner e ▸ he.instances_sublist
  refine (List.pairwise_flatten.1 (hapart.sublist hwords)).2.imp_of_mem ?_
  intro u u' hu hu' hdisjoint v hv w hw hbv hbw
  -- a word in both instances would have no byte
  have hwu : w ∉ u := fun hwu => by
    obtain ⟨x, -, hx⟩ := hbw
    exact hdisjoint w hwu w hw x hx hx
  exact hunit u hu v hv w (hwords.subset (List.mem_flatten_of_mem hu' hw)) hwu hbv hbw

section Example

/-- An isolated pair of words and a word behind them, and two isolated channels of two words, the
second of which is isolated in turn. -/
private def guarded : Peripheral :=
  { name := "GUARD", baseAddress := 0,
    registers := [
      .cluster { name := "CH%s", offset := 16, dim := some (.counted 8 2),
                 flags := { isolated := true } }
        [.register { Register.plain "KEY" 4 32 with flags := { isolated := true } },
          .register (.plain "DATA" 0 32)],
      .register { Register.plain "LOCK%s" 0 32 (some (.counted 4 2)) with
        flags := { isolated := true } },
      .register (.plain "STATUS" 8 32)] }

theorem createAddressBlocks_isolates_guarded :
    guarded.createAddressBlocks.state.addressBlocks =
      [⟨0, 4, 32, "registers"⟩, ⟨4, 4, 32, "registers"⟩, ⟨8, 4, 32, "registers"⟩,
        ⟨16, 4, 32, "registers"⟩, ⟨20, 4, 32, "registers"⟩, ⟨24, 4, 32, "registers"⟩,
        ⟨28, 4, 32, "registers"⟩] ∧
      guarded.createAddressBlocks.failure = none ∧
      ∀ b ∈ guarded.createAddressBlocks.state.addressBlocks, ∀ owner e,
        Occurs owner e 0 guarded.registers → e.flags.isolated = true →
        (∀ u ∈ e.units owner, ∀ v ∈ u, ∀ w ∈ instancesAll 0 guarded.registers, w ∉ u →
          b.Touches v → ¬b.Touches w) ∧
        (e.units owner).Pairwise fun u u' => ∀ v ∈ u, ∀ w ∈ u', b.Touches v → ¬b.Touches w := by
  have hforced : guarded.forcedBlockMultiple ∈ [0, 8] := by decide
  have hapart : (instancesAll 0 guarded.registers).Pairwise Instance.Apart := by
    have hends : (instancesAll 0 guarded.registers).Pairwise fun v w =>
        v.address + v.register.elementSize ≤ w.address ∨
          w.address + w.register.elementSize ≤ v.address := by
      decide
    refine hends.imp fun h x hv hw => ?_
    unfold Instance.Has at hv hw
    omega
  exact ⟨by cbv, createAddressBlocks_isolates rfl hforced hapart⟩

end Example

end Peripheral

end RegisterMap
