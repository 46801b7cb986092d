import RegisterMap.Proofs.Repeats
import RegisterMap.Reduction.CommonPrefix

/-!
# Footprints

The address blocks of a peripheral depend on where its registers are and how they are accessed, not
on their names and fields (`Peripheral.SameBlocks.blocksOf_eq`). Blocks made once are made again the
same way while the footprints of the registers stay (`Peripheral.HasOwnBlocks`).
-/

namespace RegisterMap

namespace Element

mutual

/-- The element without names and fields. -/
def footprint : Element → Element
  | register r => register { r with name := "", derivedFrom := none, fields := [] }
  | cluster c es => cluster { c with name := "" } (footprintAll es)

/-- The elements without names and fields. -/
def footprintAll : List Element → List Element
  | [] => []
  | e :: es => e.footprint :: footprintAll es

end

theorem footprintAll_eq_map (es : List Element) : footprintAll es = es.map footprint := by
  induction es with
  | nil => rfl
  | cons e es ih => rw [footprintAll, ih, List.map_cons]

theorem footprint_withName (name : String) (e : Element) :
    (e.withName name).footprint = e.footprint := by
  cases e <;> rfl

mutual

theorem footprint_mapRegisters {f : Register → Register}
    (hf : ∀ r, (register (f r)).footprint = (register r).footprint) :
    (e : Element) → (e.mapRegisters f).footprint = e.footprint
  | .register r => hf r
  | .cluster c es => by
    rw [mapRegisters, footprint, footprint, footprintAll_mapRegistersAll hf es]

theorem footprintAll_mapRegistersAll {f : Register → Register}
    (hf : ∀ r, (register (f r)).footprint = (register r).footprint) :
    (es : List Element) → footprintAll (mapRegistersAll f es) = footprintAll es
  | [] => rfl
  | e :: es => by
    rw [mapRegistersAll, footprintAll, footprintAll, footprint_mapRegisters hf e,
      footprintAll_mapRegistersAll hf es]

end

mutual

theorem count_footprint : (e : Element) → e.footprint.count = e.count
  | .register _ => rfl
  | .cluster c es => by rw [footprint, count, count, countAll_footprintAll es]

theorem countAll_footprintAll : (es : List Element) → countAll (footprintAll es) = countAll es
  | [] => rfl
  | e :: es => by
    rw [footprintAll, countAll, countAll, count_footprint e, countAll_footprintAll es]

end

mutual

theorem isIntact_footprint : (e : Element) → e.footprint.isIntact = e.isIntact
  | .register _ => rfl
  | .cluster c es => by rw [footprint, isIntact, isIntact, isIntactAll_footprintAll es]

theorem isIntactAll_footprintAll :
    (es : List Element) → isIntactAll (footprintAll es) = isIntactAll es
  | [] => rfl
  | e :: es => by
    rw [footprintAll, isIntactAll, isIntactAll, isIntact_footprint e, isIntactAll_footprintAll es]

end

end Element

namespace Peripheral

open Element

mutual

theorem observe_footprint : (e : Element) → ∀ base group seen,
    observe base group seen e.footprint = observe base group seen e
  | .register _, _, _, _ => rfl
  | .cluster c es, base, group, seen => by
    unfold footprint observe
    simp only [fun base group seen => observeAll_footprint es base group seen]

theorem observeAll_footprint : (es : List Element) → ∀ base group seen,
    observeAll base group seen (footprintAll es) = observeAll base group seen es
  | [], _, _, _ => rfl
  | e :: es, base, group, seen => by
    have hflags : e.footprint.flags = e.flags := by cases e <;> rfl
    rw [footprintAll, observeAll, observeAll, observe_footprint e, hflags]
    simp only [fun base group seen => observeAll_footprint es base group seen]

end

theorem observations_congr {es fs : List Element} (h : footprintAll es = footprintAll fs) :
    observations es = observations fs := by
  rw [observations, ← observeAll_footprint es, h, observeAll_footprint fs, observations]

/-- What address blocks are made from, and the blocks, are the same for both peripherals. -/
structure SameBlocks (p q : Peripheral) : Prop where
  name_eq : q.name = p.name
  preferred_eq : q.preferredAccessWidth = p.preferredAccessWidth
  forced_eq : q.forcedBlockMultiple = p.forcedBlockMultiple
  footprint_eq : footprintAll q.registers = footprintAll p.registers
  blocks_eq : q.addressBlocks = p.addressBlocks

theorem SameBlocks.refl (p : Peripheral) : SameBlocks p p := ⟨rfl, rfl, rfl, rfl, rfl⟩

theorem SameBlocks.trans {p q r : Peripheral} (hpq : SameBlocks p q) (hqr : SameBlocks q r) :
    SameBlocks p r where
  name_eq := hqr.name_eq.trans hpq.name_eq
  preferred_eq := hqr.preferred_eq.trans hpq.preferred_eq
  forced_eq := hqr.forced_eq.trans hpq.forced_eq
  footprint_eq := hqr.footprint_eq.trans hpq.footprint_eq
  blocks_eq := hqr.blocks_eq.trans hpq.blocks_eq

theorem SameBlocks.blocksOf_eq {p q : Peripheral} (h : SameBlocks p q) :
    blocksOf q = blocksOf p := by
  unfold blocksOf
  rw [h.name_eq, h.preferred_eq, h.forced_eq, observations_congr h.footprint_eq]

theorem SameBlocks.countAll_eq {p q : Peripheral} (h : SameBlocks p q) :
    countAll q.registers = countAll p.registers := by
  rw [← countAll_footprintAll, h.footprint_eq, countAll_footprintAll]

theorem SameBlocks.isIntactAll_eq {p q : Peripheral} (h : SameBlocks p q) :
    isIntactAll q.registers = isIntactAll p.registers := by
  rw [← isIntactAll_footprintAll, h.footprint_eq, isIntactAll_footprintAll]

theorem sameBlocks_takePrefix (p : Peripheral) (common : List Char) :
    SameBlocks p (p.takePrefix common) := by
  refine ⟨rfl, rfl, rfl, ?_, rfl⟩
  simp only [takePrefix, footprintAll_eq_map, List.map_map]
  exact List.map_congr_left fun e _ => footprint_withName _ e

theorem footprintAll_of_foldedFrom {es fs : List Element} (h : List.Forall₂ FoldedFrom es fs) :
    footprintAll fs = footprintAll es := by
  induction h with
  | nil => rfl
  | cons he _ ih =>
    rw [footprintAll, footprintAll, ih]
    cases he <;> rfl

theorem sameBlocks_foldRegisters (p : Peripheral) (cmp : Comparison) :
    SameBlocks p (p.foldRegisters cmp) :=
  ⟨rfl, rfl, rfl, footprintAll_of_foldedFrom (foldedFrom_foldElements cmp [] p.registers), rfl⟩

theorem sameBlocks_shareEnumerations (p : Peripheral) : SameBlocks p p.shareEnumerations := by
  refine ⟨rfl, rfl, rfl, ?_, rfl⟩
  have hfields (r : Register) :
      (Element.register r.extractSimilarFields).footprint = (Element.register r).footprint := rfl
  exact footprintAll_mapRegistersAll hfields p.registers

/-- The address blocks are those that the registers ask for. -/
def HasOwnBlocks (p : Peripheral) : Prop := blocksOf p = .ok p.addressBlocks

theorem HasOwnBlocks.congr {p q : Peripheral} (hp : p.HasOwnBlocks) (h : SameBlocks p q) :
    q.HasOwnBlocks := by
  unfold HasOwnBlocks
  rw [h.blocksOf_eq, h.blocks_eq]
  exact hp

/-- Blocks that were made are those that the registers ask for. -/
theorem hasOwnBlocks_createAddressBlocks {p : Peripheral} (hp : p.isDerived = false)
    (h : p.createAddressBlocks.failure = none) : p.createAddressBlocks.state.HasOwnBlocks := by
  unfold createAddressBlocks at h ⊢
  rw [hp] at h ⊢
  simp only [Bool.false_eq_true, if_false] at h ⊢
  cases hblocks : blocksOf p.sort with
  | error f =>
    rw [hblocks] at h
    cases h
  | ok bs =>
    exact hblocks

/-- Blocks are not made anew for a peripheral in order that has its own. -/
theorem createAddressBlocks_of_hasOwnBlocks {p : Peripheral} (hsort : p.sort = p)
    (h : p.HasOwnBlocks) : p.createAddressBlocks = .pure p := by
  unfold createAddressBlocks
  split
  · rfl
  · rw [hsort, show blocksOf p = .ok p.addressBlocks from h]
    rfl

end Peripheral

end RegisterMap
