import RegisterMap.Proofs.Arrays.Everywhere
import RegisterMap.Proofs.Arrays.Words
import RegisterMap.Proofs.Blocks.Arrival
import RegisterMap.Proofs.Blocks.Coverage

/-!
# Folding keeps the address blocks

Where nothing is isolated, the walk over a tree observes each of its words under one token
(`Peripheral.observe_of_isUnisolated`). Folding keeps the words and isolates nothing, but other
words may come first at an address. If all registers may share a block this makes no difference, so
the address blocks stay the same (`Peripheral.createAddressBlocks_foldArrays`).
-/

namespace RegisterMap

open Element

/-- Nothing in the element is isolated, nor is the element. -/
def Element.IsUnisolated (e : Element) : Prop :=
  e.Everywhere (·.flags.isolated = false) (·.flags.isolated = false)

theorem Element.IsUnisolated.flags_eq {e : Element} (h : e.IsUnisolated) :
    e.flags.isolated = false := by
  cases h with
  | register h => exact h
  | cluster h => exact h

mutual

theorem Element.register_mem_of_mem_instances {w : Instance} :
    (e : Element) → ∀ base, w ∈ e.instances base → w.register ∈ e.registers
  | .register r, base, h => by
    obtain ⟨i, -, rfl⟩ := List.mem_map.1 h
    exact List.mem_singleton_self r
  | .cluster c es, base, h => by
    obtain ⟨i, -, h⟩ := List.mem_flatMap.1 h
    exact register_mem_of_mem_instancesAll es _ h

/-- The words of elements are words of their registers. -/
theorem Element.register_mem_of_mem_instancesAll {w : Instance} :
    (es : List Element) → ∀ base, w ∈ instancesAll base es → w.register ∈ registersAll es
  | [], _, h => nomatch h
  | e :: es, base, h => by
    rw [registersAll]
    rcases List.mem_append.1 h with h | h
    · exact List.mem_append_left _ (register_mem_of_mem_instances e base h)
    · exact List.mem_append_right _ (register_mem_of_mem_instancesAll es base h)

end

namespace Peripheral

/-! ## Observations -/

theorem foldl_observed {f : Observed → Nat → Observed} {group : Nat} (ws : Nat → List Instance)
    (h : ∀ seen i, f seen i = (seen.1 ++ (ws i).map (·.observed group), seen.2)) (is : List Nat)
    (seen : Observed) :
    is.foldl f seen = (seen.1 ++ (is.flatMap ws).map (·.observed group), seen.2) := by
  induction is generalizing seen with
  | nil => simp
  | cons i is ih =>
    rw [List.foldl_cons, h, ih, List.flatMap_cons, List.map_append, List.append_assoc]

theorem observeAll_of_observe {es : List Element} (hflags : ∀ e ∈ es, e.flags.isolated = false)
    (h : ∀ e ∈ es, ∀ base group seen, observe base group seen e =
      (seen.1 ++ (e.instances base).map (·.observed group), seen.2))
    (base group : Nat) (seen : Observed) :
    observeAll base group seen es =
      (seen.1 ++ (instancesAll base es).map (·.observed group), seen.2) := by
  induction es generalizing seen with
  | nil => simp [observeAll, instancesAll]
  | cons e es ih =>
    obtain ⟨hflag, hflags⟩ := List.forall_mem_cons.1 hflags
    obtain ⟨he, hes⟩ := List.forall_mem_cons.1 h
    simp only [observeAll, hflag, Bool.false_eq_true, if_false, he base group seen]
    rw [ih hflags hes, instancesAll, List.map_append, List.append_assoc]

/-- Where nothing is isolated, the walk observes words under the token of their group and hands out
no other. -/
theorem observe_of_isUnisolated {e : Element} (h : e.IsUnisolated) :
    ∀ base group seen, observe base group seen e =
      (seen.1 ++ (e.instances base).map (·.observed group), seen.2) := by
  unfold IsUnisolated at h
  induction h with
  | @register r h =>
    intro base group seen
    let word (i : Nat) : Instance := ⟨base + r.offset + i * Dim.strideOf r.dim, r, i⟩
    have hwords : (Element.register r).instances base =
        (List.range (Dim.countOf r.dim)).flatMap fun i => [word i] := List.map_eq_flatMap
    simp only [observe, strides_eq_map, List.foldl_map, h, Bool.false_eq_true, if_false]
    rw [hwords]
    exact foldl_observed (fun i => [word i]) (fun _ _ => rfl) _ seen
  | @cluster c es h hes ih =>
    intro base group seen
    have hinner := observeAll_of_observe (fun e he => IsUnisolated.flags_eq (hes e he)) ih
    simp only [observe, strides_eq_map, List.foldl_map, h, Bool.false_eq_true, if_false]
    exact foldl_observed _
      (fun seen i => hinner (base + c.offset + i * Dim.strideOf c.dim) group seen) _ seen

/-- Where nothing is isolated, the observations are those of the words, under one token. -/
theorem observations_perm {es : List Element} (h : ∀ e ∈ es, e.IsUnisolated) :
    (observations es).Perm ((instancesAll 0 es).map (·.observed 0)) := by
  have hwalk := observeAll_of_observe (fun e he => (h e he).flags_eq)
    (fun e he => observe_of_isUnisolated (h e he)) 0 0 ([], 0)
  rw [observations, hwalk]
  exact List.mergeSort_perm _ _

theorem observations_sort_perm {p : Peripheral} (h : ∀ e ∈ p.registers, e.IsUnisolated) :
    (observations p.sort.registers).Perm ((instancesAll 0 p.registers).map (·.observed 0)) := by
  have hsort : ∀ e ∈ p.sort.registers, e.IsUnisolated := by
    intro e he
    obtain ⟨f, hf, rfl⟩ := mem_sortAll_iff.1 he
    exact (h f hf).sortWithin
  exact (observations_perm hsort).trans ((instancesAll_sortAll 0 p.registers).map _)

/-! ## Blocks -/

/-- Other registers with the same observations, whichever comes first, have the same blocks, or none
for the same reason, if all observations are of one kind. -/
theorem createAddressBlocks_of_perm {p : Peripheral} {es : List Element} (hp : p.isDerived = false)
    (h : (observations (sortAll p.registers)).Perm (observations (sortAll es)))
    (hkinds : ∀ o ∈ observations (sortAll p.registers),
      ∀ o' ∈ observations (sortAll p.registers), o.kind = o'.kind) :
    let q := { p with registers := es }
    q.createAddressBlocks.failure = p.createAddressBlocks.failure ∧
      q.createAddressBlocks.state.addressBlocks = p.createAddressBlocks.state.addressBlocks := by
  intro q
  have hblocks : q.sort.blocksOf = p.sort.blocksOf := by
    have hcoalesce := Coalescing.coalesce_perm p.preferredAccessWidth p.forcedBlockMultiple h
      (pairwise_observations _) (pairwise_observations _) fun o ho o' ho' _ => hkinds o ho o' ho'
    exact congrArg (within (.peripheral p.name)) hcoalesce.symm
  have hcreate (r : Peripheral) (hr : r.isDerived = false) : r.createAddressBlocks =
      .ofExcept r.sort (r.sort.blocksOf.map fun bs => { r.sort with addressBlocks := bs }) := by
    rw [createAddressBlocks, hr, if_neg Bool.false_ne_true]
  rw [hcreate q hp, hcreate p hp, hblocks]
  cases p.sort.blocksOf with
  | error f => exact ⟨rfl, rfl⟩
  | ok bs => exact ⟨rfl, rfl⟩

/-- Folding isolates nothing. -/
theorem isUnisolated_foldArrays {p : Peripheral} {cmp : Comparison}
    (h : ∀ e ∈ p.registers, e.IsUnisolated) :
    ∀ e ∈ (p.foldArrays cmp).state.registers, e.IsUnisolated := by
  refine everywhere_foldArrays ⟨fun hr => hr, fun hs hr is => ?_⟩ h
  obtain ⟨-, rfl, -⟩ := Arrays.Site.seed?_eq_some hs
  exact hr

/-- After strict folding that came to its end, the words are observed as they were before. -/
theorem observed_foldArrays {p : Peripheral} (hp : p.derivedFrom = none)
    (hintact : isIntactAll p.registers = true) (h : (p.foldArrays {}).failure = none) :
    ((instancesAll 0 (p.foldArrays {}).state.registers).map (·.observed 0)).Perm
      ((instancesAll 0 p.registers).map (·.observed 0)) := by
  -- what is seen of an instance is told by the word at its address
  let seen (v : Word) : Observation :=
    ⟨v.address, Bits.bytes v.width, Bits.bytes v.width, v.access, 0⟩
  have hseen : (fun w : Instance => w.observed 0) = seen ∘ Instance.word := rfl
  have hwords := foldArrays_keys (Arrays.preserves_word p.name) hp hintact h
  rw [hseen, ← List.map_map, ← List.map_map]
  exact hwords.map seen

/-- **Blocks and arrays.** The address blocks of a peripheral do not depend on whether its arrays
are folded: where nothing is isolated or deleted and all registers may share a block, making blocks
after strict folding that came to its end fails as it does without, and gives the same blocks. -/
theorem createAddressBlocks_foldArrays {p : Peripheral} (hp : p.derivedFrom = none)
    (hintact : isIntactAll p.registers = true) (hisolated : ∀ e ∈ p.registers, e.IsUnisolated)
    (haccess : ∀ r ∈ registersAll p.registers, ∀ s ∈ registersAll p.registers,
      r.access.sharesBlock s.access = true)
    (h : (p.foldArrays {}).failure = none) :
    (p.foldArrays {}).state.createAddressBlocks.failure = p.createAddressBlocks.failure ∧
      (p.foldArrays {}).state.createAddressBlocks.state.addressBlocks =
        p.createAddressBlocks.state.addressBlocks := by
  have hderived : p.isDerived = false := by rw [isDerived, hp, Option.isSome_none]
  have hobserved := observations_sort_perm hisolated
  have hperm : (observations (sortAll p.registers)).Perm
      (observations (sortAll (p.foldArrays {}).state.registers)) :=
    hobserved.trans ((observed_foldArrays hp hintact h).symm.trans
      (observations_sort_perm (isUnisolated_foldArrays hisolated)).symm)
  have hkinds : ∀ o ∈ observations (sortAll p.registers),
      ∀ o' ∈ observations (sortAll p.registers), o.kind = o'.kind := by
    intro o ho o' ho'
    obtain ⟨w, hw, rfl⟩ := List.mem_map.1 (hobserved.subset ho)
    obtain ⟨w', hw', rfl⟩ := List.mem_map.1 (hobserved.subset ho')
    exact Observation.kind_eq_iff.2 ⟨rfl, haccess _ (register_mem_of_mem_instancesAll _ _ hw) _
      (register_mem_of_mem_instancesAll _ _ hw')⟩
  rw [foldArrays_state]
  exact createAddressBlocks_of_perm hderived hperm hkinds

section Example

/-- A channel of two samples, which become an array, and a register that reads both. This comes
before the samples, and behind the array of them. -/
private def sampler : Peripheral :=
  { name := "SAI", baseAddress := 0,
    registers := [
      .register (.plain "R" 4 32),
      .cluster { name := "C", offset := 8 }
        [.register (.plain "S0" 0 32), .register (.plain "S1" 4 32),
          .register { Register.plain "W" 0 64 with access := .readOnly }]] }

theorem createAddressBlocks_foldArrays_sampler :
    sampler.derivedFrom = none ∧ isIntactAll sampler.registers = true ∧
    (∀ e ∈ sampler.registers, e.IsUnisolated) ∧
    (∀ r ∈ registersAll sampler.registers, ∀ s ∈ registersAll sampler.registers,
      r.access.sharesBlock s.access = true) ∧
    (registersAll (sortAll sampler.registers)).map Register.name = ["R", "W", "S0", "S1"] ∧
    (sampler.foldArrays {}).failure = none ∧
    (registersAll (sampler.foldArrays {}).state.registers).map Register.name = ["R", "S%s", "W"] ∧
    (sampler.foldArrays {}).state.createAddressBlocks.state.addressBlocks =
      [⟨4, 12, 32, "registers"⟩] := by
  have hisolated : ∀ e ∈ sampler.registers, e.IsUnisolated := by
    simp [sampler, IsUnisolated, Register.plain]
  have haccess : ∀ r ∈ registersAll sampler.registers, ∀ s ∈ registersAll sampler.registers,
      r.access.sharesBlock s.access = true := by decide
  have hfold : (sampler.foldArrays {}).map
      (fun p => (registersAll p.registers).map Register.name) =
        .pure ["R", "S%s", "W"] := by cbv
  have hdone : (sampler.foldArrays {}).failure = none := congrArg Outcome.failure hfold
  have hblocks : sampler.createAddressBlocks.state.addressBlocks =
      [⟨4, 12, 32, "registers"⟩] := by cbv
  have hsame := createAddressBlocks_foldArrays rfl rfl hisolated haccess hdone
  exact ⟨rfl, rfl, hisolated, haccess, by cbv, hdone, congrArg Outcome.state hfold,
    hsame.2.trans hblocks⟩

end Example

end Peripheral

end RegisterMap
