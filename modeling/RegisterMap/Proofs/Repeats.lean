import RegisterMap.Proofs.Arrays.Rest
import RegisterMap.Proofs.Equivalence
import RegisterMap.Reduction.Derivation

/-!
# Deriving twice

Registers that share the fields of earlier ones, fields that share enumerations, and peripherals
that share registers are found by a walk that takes notice of what it made of the earlier ones. A
second walk finds nothing more to share: `foldElements_foldElements`,
`extractSimilarFields_extractSimilarFields`, `deriveAll_deriveAll`.
-/

namespace RegisterMap

open Std

/-! ## Fields -/

namespace Field

instance : TransCmp fun a b : Field =>
    (compare a.bitOffset b.bitOffset).then (compare a.name b.name) :=
  inferInstanceAs (TransCmp (compareLex (compareOn Field.bitOffset) (compareOn Field.name)))

/-- The fields are in order. -/
def IsOrdered (fs : List Field) : Prop := fs.Pairwise fun f g => f.precedes g = true

theorem isOrdered_mergeSort (fs : List Field) : IsOrdered (fs.mergeSort precedes) :=
  pairwise_mergeSort_isLE
    (fun a b : Field => (compare a.bitOffset b.bitOffset).then (compare a.name b.name)) fs

end Field

namespace Register

/-- A field that shares the enumerations of the first earlier one with the same, if there is one. -/
def shareOne (earlier : List Field) (f : Field) : Field :=
  match f.derivedFrom with
  | some _ => f
  | none =>
    match earlier.find? fun e => e.derivedFrom.isNone && e.similar f with
    | some e => { f with derivedFrom := some e.name, enumerations := [] }
    | none => f

theorem shareEnumerations_cons (earlier : List Field) (f : Field) (fs : List Field) :
    shareEnumerations earlier (f :: fs) =
      shareOne earlier f :: shareEnumerations (earlier ++ [shareOne earlier f]) fs := rfl

theorem shareOne_of_derived (earlier : List Field) {f : Field} {source : String}
    (h : f.derivedFrom = some source) : shareOne earlier f = f := by
  rw [shareOne, h]

theorem shareOne_shareOne (earlier : List Field) (f : Field) :
    shareOne earlier (shareOne earlier f) = shareOne earlier f := by
  cases hf : f.derivedFrom with
  | some source => rw [shareOne_of_derived earlier hf, shareOne_of_derived earlier hf]
  | none =>
    cases hfind : earlier.find? fun e => e.derivedFrom.isNone && e.similar f with
    | some e =>
      have hshared : (shareOne earlier f).derivedFrom = some e.name := by
        rw [shareOne, hf]
        simp only [hfind]
      exact shareOne_of_derived earlier hshared
    | none =>
      have hsame : shareOne earlier f = f := by
        rw [shareOne, hf]
        simp only [hfind]
      rw [hsame, hsame]

theorem shareEnumerations_shareEnumerations (earlier fs : List Field) :
    shareEnumerations earlier (shareEnumerations earlier fs) = shareEnumerations earlier fs := by
  induction fs generalizing earlier with
  | nil => rfl
  | cons f fs ih =>
    rw [shareEnumerations_cons, shareEnumerations_cons, shareOne_shareOne, ih]

theorem precedes_shareOne (as bs : List Field) (f g : Field) :
    (shareOne as f).precedes (shareOne bs g) = f.precedes g := by
  have hplace (earlier : List Field) (f : Field) :
      (shareOne earlier f).bitOffset = f.bitOffset ∧ (shareOne earlier f).name = f.name := by
    unfold shareOne
    split
    · exact ⟨rfl, rfl⟩
    · split <;> exact ⟨rfl, rfl⟩
  unfold Field.precedes
  rw [(hplace as f).1, (hplace as f).2, (hplace bs g).1, (hplace bs g).2]

theorem exists_of_mem_shareEnumerations {earlier fs : List Field} {g : Field}
    (h : g ∈ shareEnumerations earlier fs) : ∃ es, ∃ f ∈ fs, g = shareOne es f := by
  induction fs generalizing earlier with
  | nil => cases h
  | cons f fs ih =>
    rw [shareEnumerations_cons] at h
    rcases List.mem_cons.1 h with rfl | h
    · exact ⟨earlier, f, List.mem_cons_self, rfl⟩
    · obtain ⟨es, f', hf', rfl⟩ := ih h
      exact ⟨es, f', List.mem_cons_of_mem _ hf', rfl⟩

theorem isOrdered_shareEnumerations {earlier fs : List Field} (h : Field.IsOrdered fs) :
    Field.IsOrdered (shareEnumerations earlier fs) := by
  induction fs generalizing earlier with
  | nil => exact .nil
  | cons f fs ih =>
    obtain ⟨hf, hfs⟩ := List.pairwise_cons.1 h
    rw [shareEnumerations_cons]
    refine List.pairwise_cons.2 ⟨fun g hg => ?_, ih hfs⟩
    obtain ⟨es, g', hg', rfl⟩ := exists_of_mem_shareEnumerations hg
    rw [precedes_shareOne]
    exact hf g' hg'

/-- Sharing enumerations is idempotent. -/
theorem extractSimilarFields_extractSimilarFields (r : Register) :
    r.extractSimilarFields.extractSimilarFields = r.extractSimilarFields := by
  have hordered : Field.IsOrdered (shareEnumerations [] r.sortedFields) :=
    isOrdered_shareEnumerations (Field.isOrdered_mergeSort r.fields)
  have hsorted : r.extractSimilarFields.sortedFields = shareEnumerations [] r.sortedFields :=
    List.mergeSort_of_pairwise hordered
  have hfields : shareEnumerations [] r.extractSimilarFields.sortedFields =
      shareEnumerations [] r.sortedFields := by
    rw [hsorted, shareEnumerations_shareEnumerations]
  exact congrArg (fun fs => { r with fields := fs }) hfields

end Register

/-! ## Registers -/

namespace Element

mutual

theorem mapRegisters_of_idempotent {f : Register → Register} (hf : ∀ r, f (f r) = f r) :
    (e : Element) → (e.mapRegisters f).mapRegisters f = e.mapRegisters f
  | .register r => congrArg register (hf r)
  | .cluster c es => by
    rw [mapRegisters, mapRegisters, mapRegistersAll_of_idempotent hf es]

theorem mapRegistersAll_of_idempotent {f : Register → Register} (hf : ∀ r, f (f r) = f r) :
    (es : List Element) → mapRegistersAll f (mapRegistersAll f es) = mapRegistersAll f es
  | [] => rfl
  | e :: es => by
    rw [mapRegistersAll, mapRegistersAll, mapRegisters_of_idempotent hf e,
      mapRegistersAll_of_idempotent hf es]

end

end Element

namespace Peripheral

open Element

theorem keepsPlaces_extractSimilarFields : KeepsPlaces Register.extractSimilarFields :=
  fun _ => ⟨rfl, rfl, rfl⟩

theorem shareEnumerations_shareEnumerations (p : Peripheral) :
    p.shareEnumerations.shareEnumerations = p.shareEnumerations := by
  unfold shareEnumerations
  rw [mapRegistersAll_of_idempotent Register.extractSimilarFields_extractSimilarFields]

/-- What folding makes of an element: itself, or a register derived from another. -/
inductive FoldedFrom : Element → Element → Prop
  | same (e : Element) : FoldedFrom e e
  | derived (r : Register) (source : String) :
      FoldedFrom (.register r) (.register { r with derivedFrom := some source, fields := [] })

theorem FoldedFrom.samePlace {e f : Element} (h : FoldedFrom e f) : SamePlace e f := by
  cases h with
  | same => exact .refl e
  | derived r source => exact ⟨rfl, rfl, rfl⟩

variable {cmp : Comparison}

theorem foldedFrom_foldElement (cmp : Comparison) (earlier : List Element) (e : Element) :
    FoldedFrom e (foldElement cmp earlier e) := by
  unfold foldElement
  split
  · split
    · split
      · exact .derived _ _
      · exact .same _
    · exact .same _
  · exact .same _

theorem foldedFrom_foldElements (cmp : Comparison) (earlier es : List Element) :
    List.Forall₂ FoldedFrom es (foldElements cmp earlier es) := by
  induction es generalizing earlier with
  | nil => exact .nil
  | cons e es ih => exact .cons (foldedFrom_foldElement cmp earlier e) (ih _)

theorem foldElement_foldElement (cmp : Comparison) (earlier : List Element) (e : Element) :
    foldElement cmp earlier (foldElement cmp earlier e) = foldElement cmp earlier e := by
  cases e with
  | cluster c es => rfl
  | register r =>
    by_cases hown : hasOwnFields r = true
    · cases hfind : describing? cmp earlier r with
      | none =>
        have hsame : foldElement cmp earlier (.register r) = .register r := by
          simp only [foldElement, hown, if_true, hfind]
        rw [hsame, hsame]
      | some s =>
        have hfold : foldElement cmp earlier (.register r) =
            .register { r with derivedFrom := some s.name, fields := [] } := by
          simp only [foldElement, hown, if_true, hfind]
        rw [hfold]
        rfl
    · have hsame : foldElement cmp earlier (.register r) = .register r := by
        simp only [foldElement, hown, Bool.false_eq_true, if_false]
      rw [hsame, hsame]

/-- Deriving registers is idempotent. -/
theorem foldElements_foldElements (cmp : Comparison) (earlier es : List Element) :
    foldElements cmp earlier (foldElements cmp earlier es) = foldElements cmp earlier es := by
  induction es generalizing earlier with
  | nil => rfl
  | cons e es ih => simp only [foldElements, foldElement_foldElement, ih]

theorem foldRegisters_foldRegisters (p : Peripheral) (cmp : Comparison) :
    (p.foldRegisters cmp).foldRegisters cmp = p.foldRegisters cmp := by
  unfold foldRegisters
  rw [foldElements_foldElements]

theorem sortAll_of_foldedFrom {es fs : List Element} (h : List.Forall₂ FoldedFrom es fs)
    (hes : sortAll es = es) : sortAll fs = fs := by
  obtain ⟨hordered, hwithin⟩ := sortAll_eq_self_iff.1 hes
  refine sortAll_eq_self_iff.2 ⟨hordered.of_samePlace (h.imp fun _ _ => FoldedFrom.samePlace), ?_⟩
  intro f hf
  obtain ⟨e, he, hef⟩ := exists_mem_of_forall₂ h hf
  cases hef with
  | same => exact hwithin f he
  | derived => rfl

/-! ### Arrays of derived registers -/

open Arrays

theorem FoldedFrom.apart {site : Site} {a b a' b' : Element} (ha : FoldedFrom a a')
    (hb : FoldedFrom b b') (h : site.Apart a b) : site.Apart a' b' := by
  apply Site.apart_of
  intro hlone hlone'
  cases ha with
  | derived r source => cases (isSingle_iff.1 hlone).2.1
  | same =>
    cases hb with
    | derived r source => cases (isSingle_iff.1 hlone').2.1
    | same => exact h

theorem pairwise_apart_of_foldedFrom {site : Site} {es fs : List Element}
    (h : List.Forall₂ FoldedFrom es fs) (hes : es.Pairwise site.Apart) :
    fs.Pairwise site.Apart := by
  induction h with
  | nil => exact .nil
  | @cons e f es fs he hes' ih =>
    obtain ⟨hhead, htail⟩ := List.pairwise_cons.1 hes
    refine List.pairwise_cons.2 ⟨fun g' hg' => ?_, ih htail⟩
    obtain ⟨g, hg, hgg'⟩ := exists_mem_of_forall₂ hes' hg'
    exact he.apart hgg' (hhead g hg)

/-- Deriving registers leaves arrays that are at rest so. -/
theorem rests_foldElements {site : Site} {es : List Element} (h : site.Rests es)
    (cmp : Comparison) : site.Rests (foldElements cmp [] es) := by
  have hfold := foldedFrom_foldElements cmp [] es
  constructor
  · exact sortAll_of_foldedFrom hfold h.sorted
  · apply isIntactAll_iff.2
    intro f hf
    obtain ⟨e, he, hef⟩ := exists_mem_of_forall₂ hfold hf
    have hintact := isIntactAll_iff.1 h.intact e he
    cases hef with
    | same => exact hintact
    | derived => exact hintact
  · exact pairwise_apart_of_foldedFrom hfold h.apart
  · intro r hr hsingle
    obtain ⟨e, he, hef⟩ := exists_mem_of_forall₂ hfold hr
    cases hef with
    | same => exact h.unmarked r he hsingle
    | derived => cases (isSingle_iff.1 hsingle).2.1
  · intro f hf
    obtain ⟨e, he, hef⟩ := exists_mem_of_forall₂ hfold hf
    cases hef with
    | same => exact h.inside f he
    | derived => rfl

/-! ## Peripherals -/

theorem deriveFromEarlier_deriveFromEarlier (cmp : Comparison) (earlier : List Peripheral)
    (p : Peripheral) : deriveFromEarlier cmp earlier (deriveFromEarlier cmp earlier p) =
      deriveFromEarlier cmp earlier p := by
  by_cases hp : p.isDerived = true
  · have hsame : deriveFromEarlier cmp earlier p = p := if_pos hp
    rw [hsame, hsame]
  · cases htwin : twin? cmp earlier p with
    | none =>
      have hsame : deriveFromEarlier cmp earlier p = p := by
        rw [deriveFromEarlier, if_neg hp, htwin]
      rw [hsame, hsame]
    | some s =>
      have hderived : deriveFromEarlier cmp earlier p = p.deriveFrom s.name := by
        rw [deriveFromEarlier, if_neg hp, htwin]
      rw [hderived]
      rfl

/-- Deriving peripherals is idempotent. -/
theorem deriveAll_deriveAll (cmp : Comparison) (earlier ps : List Peripheral) :
    deriveAll cmp earlier (deriveAll cmp earlier ps) = deriveAll cmp earlier ps := by
  induction ps generalizing earlier with
  | nil => rfl
  | cons p ps ih => simp only [deriveAll, deriveFromEarlier_deriveFromEarlier, ih]

end Peripheral

end RegisterMap
