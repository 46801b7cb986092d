import Mathlib.Data.List.Permutation
import RegisterMap.Proofs.Blocks.Coalescing
import RegisterMap.Proofs.Blocks.Walk

/-!
# The blocks of a peripheral

The walk over the tree of a peripheral observes every word of its registers, and the observations
reach the coalescing in the order of their addresses. So the blocks hold the cells in which there is
a byte of a word, and no others (`createAddressBlocks_covers`). A word has the bytes that its bits
take, unless its width is so near to `2 ^ 32` that its size wraps around (`Instance.has_iff`).
-/

namespace RegisterMap

open Element

/-- The byte lies in the word. -/
def Instance.Has (w : Instance) (x : Nat) : Prop :=
  w.address ≤ x ∧ x < w.address + w.register.elementSize

/-- The bytes of a word are those with one of its bits, and there are none if its size wraps. -/
theorem Instance.has_iff {w : Instance} {x : Nat} :
    w.Has x ↔ w.register.width + 7 < 2 ^ 32 ∧ w.address ≤ x ∧
      8 * (x - w.address) < w.register.width := by
  unfold Instance.Has Register.elementSize Bits.bytes
  rw [show Bits.limit 32 = 2 ^ 32 from rfl]
  split <;> omega

/-- The block begins before the other, or with it and is smaller, or is as large and narrower. -/
def AddressBlock.Before (a b : AddressBlock) : Prop :=
  a.offset < b.offset ∨ a.offset = b.offset ∧
    (a.size < b.size ∨ a.size = b.size ∧ a.width < b.width)

theorem AddressBlock.before_of_order {a b : AddressBlock} (h : a.order b = .lt)
    (husage : a.usage = b.usage) : a.Before b := by
  have hsame : compare a.usage b.usage = .eq := Std.LawfulEqCmp.compare_eq_iff_eq.2 husage
  simpa [order, hsame, Ordering.then_eq_lt, Nat.compare_eq_lt, Before] using h

namespace Peripheral

/-! ## The observations -/

/-- A byte is observed if it lies in a word. -/
theorem exists_observations_has (es : List Element) (x : Nat) :
    (∃ o ∈ observations es, o.Has x) ↔ ∃ w ∈ instancesAll 0 es, w.Has x := by
  obtain ⟨ms, hperm, hwords, -⟩ := exists_marks es
  have hseen : (∃ o ∈ observations es, o.Has x) ↔ ∃ m ∈ ms, m.1.Has x := by
    simp only [hperm.mem_iff, Marks.observations, List.mem_map, exists_exists_and_eq_and]
    rfl
  rw [hseen, ← hwords]
  simp only [List.mem_map, exists_exists_and_eq_and]

theorem pairwise_observations (es : List Element) :
    (observations es).Pairwise fun o p => o.address ≤ p.address := by
  have hsorted : (observations es).Pairwise fun o p => decide (o.address ≤ p.address) := by
    apply List.pairwise_mergeSort
    · intro a b c hab hbc
      simp only [decide_eq_true_eq] at *
      omega
    · intro a b
      simp only [Bool.or_eq_true, decide_eq_true_eq]
      omega
  exact hsorted.imp of_decide_eq_true

/-! ## The blocks -/

/-- A cell is touched by one of several when a byte of one lies in it. -/
theorem exists_touched {α : Type} {as : List α} {P : α → Nat → Prop} {Q : Nat → Prop} :
    (∃ a ∈ as, ∃ y, P a y ∧ Q y) ↔ ∃ y, (∃ a ∈ as, P a y) ∧ Q y := by
  constructor
  · rintro ⟨a, ha, y, hP, hQ⟩
    exact ⟨y, ⟨a, ha, hP⟩, hQ⟩
  · rintro ⟨y, ⟨a, ha, hP⟩, hQ⟩
    exact ⟨a, ha, y, hP, hQ⟩

/-- With a multiple that is known there are blocks; they hold the cells that words touch. -/
theorem blocksOf_run (p : Peripheral) (h : p.forcedBlockMultiple ∈ [0, 8, 16, 32]) :
    ∃ bs, p.blocksOf = .ok bs ∧
      (∀ x, (∃ b ∈ bs, b.Has x) ↔ ∃ w ∈ instancesAll 0 p.registers, ∃ y, w.Has y ∧
        SameCell (max 1 (p.forcedBlockMultiple / 8)) x y) ∧
      (∀ b ∈ bs, b.IsRegular (max 1 (p.forcedBlockMultiple / 8))) ∧
      bs.Pairwise fun a b => a.order b = .lt := by
  let c : Coalescing :=
    { preferred := p.preferredAccessWidth / 8, multiple := p.forcedBlockMultiple / 8 }
  have hc : c.Running 0 := Coalescing.running_start _ _
  have hnone (x : Nat) : ¬c.Has x := by simp [c, Coalescing.Has, Coalescing.Took]
  obtain ⟨hadd, hcell, ⟨a, hrun⟩, hhas⟩ :=
    Coalescing.run_addAll (pairwise_observations p.registers) hc fun _ _ => Nat.zero_le _
  obtain ⟨bs, hfinish, hblocks, hregular, hsorted⟩ := Coalescing.finish_run hrun
  rw [hcell] at hregular
  refine ⟨bs, ?_, fun x => ?_, hregular, hsorted⟩
  · rw [blocksOf, Coalescing.start_eq_ok _ _ h, within_eq_ok]
    exact bind_eq_ok.2 ⟨c, rfl, bind_eq_ok.2 ⟨_, hadd, hfinish⟩⟩
  · rw [hblocks, hhas, exists_touched]
    simp only [hnone, false_or, exists_observations_has]
    exact exists_touched.symm

theorem exists_instance_sort (p : Peripheral) (P : Instance → Prop) :
    (∃ w ∈ instancesAll 0 p.sort.registers, P w) ↔ ∃ w ∈ instancesAll 0 p.registers, P w := by
  have hperm := instancesAll_sortAll 0 p.registers
  exact exists_congr fun w => and_congr_left fun _ => hperm.mem_iff

/-- The blocks of a peripheral that has its own registers: there are some unless the multiple is
unknown, they hold the cells that words touch and no other bytes, begin and end with a cell, come
in strict order, and have widths that fit them. The bytes of a word are those of its bits, as far
as its size does not wrap around. -/
theorem createAddressBlocks_covers (p : Peripheral) (hp : p.derivedFrom = none) :
    (p.createAddressBlocks.failure = none ↔ p.forcedBlockMultiple ∈ [0, 8, 16, 32]) ∧
    (∀ f ∈ p.createAddressBlocks.failure, ∀ current start,
      f.cause ≠ .goingBackwards current start) ∧
    (p.createAddressBlocks.failure = none →
      let m := max 1 (p.forcedBlockMultiple / 8)
      let bs := p.createAddressBlocks.state.addressBlocks
      (∀ x, (∃ b ∈ bs, b.Has x) ↔
        ∃ w ∈ instancesAll 0 p.registers, ∃ y, w.Has y ∧ SameCell m x y) ∧
      bs.Pairwise AddressBlock.Before ∧
      ∀ b ∈ bs, m ∣ b.offset ∧ m ∣ b.size ∧
        ∃ k, b.width = 8 * 2 ^ k ∧ 2 ^ k ∣ b.offset ∧ 2 ^ k ∣ b.size) ∧
    ∀ w ∈ instancesAll 0 p.registers, ∀ x, w.Has x ↔
      w.register.width + 7 < 2 ^ 32 ∧ w.address ≤ x ∧
        8 * (x - w.address) < w.register.width := by
  have hbits (w : Instance) (_ : w ∈ instancesAll 0 p.registers) (x : Nat) :
      w.Has x ↔ w.register.width + 7 < 2 ^ 32 ∧ w.address ≤ x ∧
        8 * (x - w.address) < w.register.width := Instance.has_iff
  have hcreate : p.createAddressBlocks =
      .ofExcept p.sort (p.sort.blocksOf.map fun bs => { p.sort with addressBlocks := bs }) := by
    simp [createAddressBlocks, isDerived, hp]
  by_cases h : p.forcedBlockMultiple ∈ [0, 8, 16, 32]
  · obtain ⟨bs, hbs, hbytes, hregular, hsorted⟩ := blocksOf_run p.sort h
    have hdone : p.createAddressBlocks = { state := { p.sort with addressBlocks := bs } } := by
      rw [hcreate, hbs]
      rfl
    rw [hdone]
    refine ⟨iff_of_true rfl h, nofun, fun _ => ⟨fun x => ?_, ?_, fun b hb => ?_⟩, hbits⟩
    · rw [← exists_instance_sort]
      exact hbytes x
    · refine hsorted.imp_of_mem fun {a b} ha hb hab => AddressBlock.before_of_order hab ?_
      rw [(hregular a ha).usage_eq, (hregular b hb).usage_eq]
    · have hb := hregular b hb
      exact ⟨hb.dvd_offset, hb.dvd_size, hb.width_eq⟩
  · let failure : Failure := ⟨[.peripheral p.name], .blockMultiple p.forcedBlockMultiple⟩
    have hfail : p.createAddressBlocks = { state := p.sort, failure := some failure } := by
      have hstart :=
        Coalescing.start_eq_error p.sort.preferredAccessWidth p.sort.forcedBlockMultiple h
      rw [hcreate, blocksOf, hstart]
      rfl
    rw [hfail]
    refine ⟨iff_of_false nofun h, ?_, nofun, hbits⟩
    rintro f ⟨⟩ current start
    exact nofun

/-- Two channels of a byte and a write-only half-word around a word, in blocks of whole words. -/
private def dmaChannels : Peripheral :=
  { name := "DMA", baseAddress := 0, forcedBlockMultiple := 32,
    registers := [
      .cluster { name := "CH%s", offset := 1, dim := some { indexes := ["0", "1"], stride := 16 } }
        [.register (.plain "S" 0 8),
          .register { Register.plain "D" 6 16 with access := .writeOnly }],
      .register (.plain "M" 12 32)] }

theorem createAddressBlocks_covers_channels :
    dmaChannels.derivedFrom = none ∧ dmaChannels.createAddressBlocks.failure = none ∧
    dmaChannels.createAddressBlocks.state.addressBlocks =
      [⟨0, 4, 8, "registers"⟩, ⟨4, 8, 16, "registers"⟩, ⟨12, 4, 32, "registers"⟩,
        ⟨16, 4, 8, "registers"⟩, ⟨20, 8, 16, "registers"⟩] ∧
    dmaChannels.createAddressBlocks.state.addressBlocks.Pairwise AddressBlock.Before := by
  have h := createAddressBlocks_covers dmaChannels rfl
  have hdone := h.1.2 (by decide)
  exact ⟨rfl, hdone, by cbv, (h.2.2.1 hdone).2.1⟩

end Peripheral

end RegisterMap
