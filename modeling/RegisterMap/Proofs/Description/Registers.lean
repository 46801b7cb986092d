import Mathlib.Tactic.MkIffOfInductiveProp
import RegisterMap.Description.Registers
import RegisterMap.Proofs.Description.Records
import RegisterMap.Proofs.Sorting

/-!
# Registers that were written as data

A tree of registers and clusters whose numbers fit their types is read from its data as it was
(`Element.listOf?_toData`), as long as nothing in it waits to be taken out.
-/

namespace RegisterMap

open Fields

variable {dl : Dialect}

theorem Access.ofDatum?_toDatum (a : Access) : ofDatum? .json a.toDatum = some a := by
  cases a <;> rfl

@[simp] theorem Access.isPlain_toDatum (a : Access) : Json.IsPlain a.toDatum := .text _

theorem Access.elim_toDatum (a : Option Access) :
    a.elim (some none) (Datum.unlessAbsent? (ofDatum? .json) ∘ toDatum) = some a :=
  Datum.elim_unlessAbsent? _ _ (fun _ => rfl) fun a _ => ofDatum?_toDatum a

namespace Enumeration

/-- The numbers fit their types. -/
@[mk_iff]
structure Fits (e : Enumeration) : Prop where
  value : e.value < Bits.limit 64
  mask : e.mask < Bits.limit 64

instance : DecidablePred Fits := fun e => decidable_of_iff' _ (fits_iff e)

theorem ofDatum?_toDatum {e : Enumeration} (h : e.Fits) : ofDatum? dl e.toDatum = some e := by
  rw [ofDatum?, toDatum, dl.fields?_ofFields ?within (by decide)]
  case within => exact (within_all [_, _, _, _]).append (within_present _ _)
  simp [Datum.natural?_integer h.value, Datum.natural?_integer h.mask]

theorem isPlain_toDatum {e : Enumeration} (h : e.Fits) : Json.IsPlain e.toDatum := by
  refine Json.isPlain_ofFields names (by cbv)
    ((within_all [_, _, _, _]).append (within_present _ _)) ?_
  simp [Json.isPlain_natural h.value, Json.isPlain_natural h.mask]

end Enumeration

namespace Field

/-- The numbers fit their types. -/
@[mk_iff]
structure Fits (f : Field) : Prop where
  bitOffset : f.bitOffset < Bits.limit 32
  bitWidth : f.bitWidth < Bits.limit 32
  enumerations : ∀ e ∈ f.enumerations, e.Fits

instance : DecidablePred Fits := fun f => decidable_of_iff' _ (fits_iff f)

theorem ofDatum?_toDatum {f : Field} (h : f.Fits) : ofDatum? .json f.toDatum = some f := by
  rw [ofDatum?, toDatum, Dialect.json.fields?_ofFields ?within (by decide)]
  case within =>
    exact ((((within_all [_, _, _, _]).append (within_present _ _)).append
      (within_present _ _)).append (within_all [_])).append (within_presentList _ _)
  have haccess := Access.elim_toDatum f.access
  have henumerations := Datum.elim_listUnlessEmpty (Enumeration.ofDatum? .json) Enumeration.toDatum
    fun e he => Enumeration.ofDatum?_toDatum (h.enumerations e he)
  simp [List.lookup_append, Datum.natural?_integer h.bitOffset, Datum.natural?_integer h.bitWidth,
    haccess, henumerations]

theorem isPlain_toDatum {f : Field} (h : f.Fits) : Json.IsPlain f.toDatum := by
  refine Json.isPlain_ofFields names (by cbv)
    (((((within_all [_, _, _, _]).append (within_present _ _)).append
      (within_present _ _)).append (within_all [_])).append (within_presentList _ _)) ?_
  have henumerations := fun e he => Enumeration.isPlain_toDatum (h.enumerations e he)
  simpa [Json.isPlain_natural32 h.bitOffset,
    Json.isPlain_natural32 h.bitWidth] using henumerations

end Field

namespace Dim

theorem ofDatum?_toDatum {d : Dim} (h : d.stride < Bits.limit 64) :
    ofDatum? dl d.toDatum = some d := by
  rw [ofDatum?, toDatum, dl.fields?_ofFields ?within (by decide)]
  case within => exact within_all _
  have hindexes : Datum.listOf? Datum.text? (.list (d.indexes.map .text)) = some d.indexes :=
    Datum.listOf?_list _ _ fun _ _ => rfl
  simp [Datum.natural?_integer h, hindexes]

theorem isPlain_toDatum {d : Dim} (h : d.stride < Bits.limit 64) : Json.IsPlain d.toDatum := by
  refine Json.isPlain_ofFields names (by cbv) (within_all _) ?_
  simp [Json.isPlain_natural h]

end Dim

namespace Flags

theorem ofDatum?_toDatum (f : Flags) : ofDatum? dl f.toDatum = some f := by
  rw [ofDatum?, toDatum, dl.fields?_ofFields ?within (by decide)]
  case within => exact within_all _
  simp

@[simp] theorem isPlain_toDatum (f : Flags) : Json.IsPlain f.toDatum := by
  refine Json.isPlain_ofFields names (by cbv) (within_all _) ?_
  simp

end Flags

namespace Register

/-- The numbers fit their types. -/
@[mk_iff]
structure Fits (r : Register) : Prop where
  offset : r.offset < Bits.limit 64
  width : r.width < Bits.limit 32
  resetValue : r.resetValue < Bits.limit 64
  resetMask : r.resetMask < Bits.limit 64
  dim : ∀ d ∈ r.dim, d.stride < Bits.limit 64
  fields : ∀ f ∈ r.fields, f.Fits

instance : DecidablePred Fits := fun r => decidable_of_iff' _ (fits_iff r)

theorem ofDatum?_toDatum {r : Register} (h : r.Fits) (hintact : r.deleted = false) :
    ofDatum? .json r.toDatum = some r := by
  rw [ofDatum?, toDatum, Dialect.json.fields?_ofFields ?within (by decide)]
  case within =>
    exact ((((within_all [_, _, _, _, _, _, _]).append (within_present _ _)).append
      (within_present _ _)).append (within_all [_])).append (within_presentList _ _)
  have hdim := Datum.elim_unlessAbsent? (Dim.ofDatum? .json) Dim.toDatum (fun _ => rfl)
    fun d hd => Dim.ofDatum?_toDatum (h.dim d hd)
  have hfields := Datum.elim_listUnlessEmpty (Field.ofDatum? .json) Field.toDatum
    fun f hf => Field.ofDatum?_toDatum (h.fields f hf)
  generalize hfs : (_ ++ _ : Fields) = fs
  -- the readings are nested, so each is settled by itself
  have hnumbers :
      fs.required "address_offset" (Datum.natural? 64) = some r.offset ∧
      fs.required "width" (Datum.natural? 32) = some r.width ∧
      fs.required "reset_value" (Datum.natural? 64) = some r.resetValue ∧
      fs.required "reset_mask" (Datum.natural? 64) = some r.resetMask := by
    subst hfs
    simp [Datum.natural?_integer h.offset, Datum.natural?_integer h.width,
      Datum.natural?_integer h.resetValue, Datum.natural?_integer h.resetMask]
  have hothers :
      fs.required "name" Datum.text? = some r.name ∧
      fs.required "description" Datum.text? = some r.description ∧
      fs.required "access" (Access.ofDatum? .json) = some r.access ∧
      fs.optional "dim" (Dim.ofDatum? .json) = some r.dim ∧
      fs.optional "derived_from" Datum.text? = some r.derivedFrom ∧
      fs.withDefault "flags" {} (Flags.ofDatum? .json) = some r.flags ∧
      fs.withDefault "fields" [] (Datum.listOf? (Field.ofDatum? .json)) = some r.fields := by
    subst hfs
    simp [List.lookup_append, Access.ofDatum?_toDatum, Flags.ofDatum?_toDatum, hdim, hfields]
  obtain ⟨hoffset, hwidth, hvalue, hmask⟩ := hnumbers
  obtain ⟨hname, hdescription, haccess, hdim, hderived, hflags, hfields⟩ := hothers
  rw [Option.bind_eq_bind, Option.bind_some, hname, hdescription, hoffset, hwidth, haccess, hvalue,
    hmask, hdim, hderived, hflags, hfields]
  simp [← hintact]

theorem isPlain_toDatum {r : Register} (h : r.Fits) : Json.IsPlain r.toDatum := by
  refine Json.isPlain_ofFields names (by cbv)
    (((((within_all [_, _, _, _, _, _, _]).append (within_present _ _)).append
      (within_present _ _)).append (within_all [_])).append (within_presentList _ _)) ?_
  have hdim := fun d hd => Dim.isPlain_toDatum (h.dim d hd)
  have hfields := fun f hf => Field.isPlain_toDatum (h.fields f hf)
  simpa [Json.isPlain_natural h.offset, Json.isPlain_natural32 h.width,
    Json.isPlain_natural h.resetValue, Json.isPlain_natural h.resetMask]
    using ⟨hdim, hfields⟩

end Register

namespace Cluster

/-- The numbers fit their types. -/
@[mk_iff]
structure Fits (c : Cluster) : Prop where
  offset : c.offset < Bits.limit 64
  dim : ∀ d ∈ c.dim, d.stride < Bits.limit 64

instance : DecidablePred Fits := fun c => decidable_of_iff' _ (fits_iff c)

theorem ofDatum?_toDatum {c : Cluster} (h : c.Fits) (hintact : c.deleted = false)
    {child : Datum → Option Element} {es : List Element} {ds : List Datum}
    (hes : Datum.listOf? child (.list ds) = some es) :
    ofDatum? .json child (c.toDatum ds) = some (.cluster c es) := by
  rw [ofDatum?, toDatum, Dialect.json.fields?_ofFields ?within (by decide)]
  case within =>
    exact ((within_all [_, _, _]).append (within_present _ _)).append (within_all [_, _])
  have hdim := Datum.elim_unlessAbsent? (Dim.ofDatum? .json) Dim.toDatum (fun _ => rfl)
    fun d hd => Dim.ofDatum?_toDatum (h.dim d hd)
  simp [List.lookup_append, Datum.natural?_integer h.offset, Flags.ofDatum?_toDatum, hdim, hes,
    ← hintact]

theorem isPlain_toDatum {c : Cluster} (h : c.Fits) {ds : List Datum}
    (hds : ∀ d ∈ ds, Json.IsPlain d) : Json.IsPlain (c.toDatum ds) := by
  refine Json.isPlain_ofFields names (by cbv)
    (((within_all [_, _, _]).append (within_present _ _)).append (within_all [_, _])) ?_
  have hdim := fun d hd => Dim.isPlain_toDatum (h.dim d hd)
  simpa [Json.isPlain_natural h.offset] using ⟨hdim, hds⟩

end Cluster

/-! ## Trees -/

namespace Datum

theorem depth_lt_of_mem_list {d : Datum} {ds : List Datum} (h : d ∈ ds) :
    d.depth < (list ds).depth := by
  rw [depth, Nat.lt_succ_iff]
  induction ds with
  | nil => cases h
  | cons d' ds ih =>
    rw [depthOfList]
    rcases List.mem_cons.1 h with rfl | h
    · exact Nat.le_max_left _ _
    · exact Nat.le_trans (ih h) (Nat.le_max_right _ _)

theorem depth_lt_of_mem_record {k d : Datum} {es : List (Datum × Datum)} (h : (k, d) ∈ es) :
    d.depth < (record es).depth := by
  rw [depth, Nat.lt_succ_iff]
  induction es with
  | nil => cases h
  | cons e es ih =>
    obtain ⟨k', d'⟩ := e
    rw [depthOfEntries]
    rcases List.mem_cons.1 h with h | h
    · rw [(Prod.mk.inj h).2]
      exact Nat.le_max_left _ _
    · exact Nat.le_trans (ih h) (Nat.le_max_right _ _)

theorem depth_lt_of_mem_fields {k : String} {d : Datum} {fs : Fields} (h : (k, d) ∈ fs) :
    d.depth < (ofFields fs).depth :=
  depth_lt_of_mem_record (List.mem_map.2 ⟨(k, d), h, rfl⟩)

end Datum

namespace Element

mutual

/-- The numbers in the element fit their types. -/
def fits : Element → Bool
  | register r => decide r.Fits
  | cluster c es => decide c.Fits && fitsAll es

/-- The numbers in the elements fit their types. -/
def fitsAll : List Element → Bool
  | [] => true
  | e :: es => e.fits && fitsAll es

end

theorem fitsAll_iff {es : List Element} : fitsAll es = true ↔ ∀ e ∈ es, e.fits = true := by
  induction es with
  | nil => simp [fitsAll]
  | cons e es ih => rw [fitsAll, Bool.and_eq_true, ih, List.forall_mem_cons]

theorem toData_eq_map (es : List Element) : toData dl es = es.map (toDatum dl) := by
  induction es with
  | nil => rfl
  | cons e es ih => rw [toData, ih, List.map_cons]

/-- An element is read from its value as soon as its depth is counted. -/
theorem readWithin_toDatum (e : Element) : e.fits = true → e.isIntact = true → ∀ depth,
    (e.toDatum .json).depth ≤ depth → readWithin .json depth (e.toDatum .json) = some e := by
  induction e using tree_induction with
  | register r =>
    intro hfits hintact depth hdepth
    have hr : r.Fits := by simpa [fits] using hfits
    have hdeleted : r.deleted = false := by simpa [isIntact] using hintact
    cases depth with
    | zero => cases hdepth
    | succ depth =>
      show (Register.ofDatum? .json r.toDatum).map Element.register = _
      rw [Register.ofDatum?_toDatum hr hdeleted]
      rfl
  | cluster c es ih =>
    intro hfits hintact depth hdepth
    obtain ⟨hc, hes⟩ : c.Fits ∧ fitsAll es = true := by simpa [fits] using hfits
    obtain ⟨hdeleted, hintacts⟩ : c.deleted = false ∧ isIntactAll es = true := by
      simpa [isIntact] using hintact
    -- the children are further in than the cluster
    have hinner : (Datum.list (toData .json es)).depth < ((cluster c es).toDatum .json).depth := by
      have hfield : (Datum.list (toData .json es)).depth < (c.toDatum (toData .json es)).depth :=
        Datum.depth_lt_of_mem_fields (k := "children") (by simp)
      rw [toDatum]
      exact Nat.lt_trans hfield
        (Datum.depth_lt_of_mem_fields (k := "cluster") (List.mem_singleton_self _))
    cases depth with
    | zero => cases hdepth
    | succ depth =>
      show Cluster.ofDatum? .json (readWithin .json depth) (c.toDatum (toData .json es)) = _
      apply Cluster.ofDatum?_toDatum hc hdeleted
      rw [toData_eq_map] at hinner ⊢
      refine Datum.listOf?_list _ _ fun e he => ?_
      have hdeep := Datum.depth_lt_of_mem_list (List.mem_map_of_mem (f := toDatum .json) he)
      exact ih e he (fitsAll_iff.1 hes e he) (isIntactAll_iff.1 hintacts e he) depth (by omega)

/-- **Registers and clusters.** The tree is read from its data as it was. -/
theorem listOf?_toData {es : List Element} (hfits : fitsAll es = true)
    (hintact : isIntactAll es = true) :
    Datum.listOf? (ofDatum? .json) (.list (toData .json es)) = some es := by
  rw [toData_eq_map]
  exact Datum.listOf?_list _ _ fun e he => readWithin_toDatum e (fitsAll_iff.1 hfits e he)
    (isIntactAll_iff.1 hintact e he) _ (Nat.le_refl _)

theorem isPlain_toDatum (e : Element) (hfits : e.fits = true) :
    Json.IsPlain (e.toDatum .json) := by
  have hvariant {kind : String} (hkind : [kind].all Json.isVerbatim = true) {d : Datum}
      (hd : Json.IsPlain d) : Json.IsPlain (Dialect.json.variant kind d) :=
    Json.isPlain_ofFields [kind] hkind (within_all _) (by simpa using hd)
  induction e using tree_induction with
  | register r =>
    exact hvariant (by decide) (Register.isPlain_toDatum (by simpa [fits] using hfits))
  | cluster c es ih =>
    obtain ⟨hc, hes⟩ : c.Fits ∧ fitsAll es = true := by simpa [fits] using hfits
    refine hvariant (by decide) (Cluster.isPlain_toDatum hc ?_)
    rw [toData_eq_map, List.forall_mem_map]
    exact fun e he => ih e he (fitsAll_iff.1 hes e he)

end Element

end RegisterMap
