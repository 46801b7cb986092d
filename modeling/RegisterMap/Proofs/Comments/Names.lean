import RegisterMap.Header
import RegisterMap.Proofs.Comments.Texts
import RegisterMap.Proofs.Element
import RegisterMap.Proofs.Ensures

/-!
# Names in a header

Devices whose texts, descriptions apart, are made of ASCII letters, digits and a few other
characters (`Device.HasOrdinaryTexts`), and the names that a header makes from these texts: none of
them can begin or end a comment.
-/

namespace RegisterMap

open CText (IsOrdinary IsInert isInert_append)

/-! ## Devices with ordinary texts -/

/-- The indexes are ordinary. -/
def Dim.HasOrdinaryTexts (d : Dim) : Prop := ∀ i ∈ d.indexes, IsOrdinary i

instance : DecidablePred Dim.HasOrdinaryTexts := fun d =>
  inferInstanceAs (Decidable (∀ i ∈ d.indexes, _))

/-- The texts of the register are ordinary, descriptions apart. -/
@[mk_iff]
structure Register.HasOrdinaryTexts (r : Register) : Prop where
  name : IsOrdinary r.name
  dim : ∀ d ∈ r.dim, d.HasOrdinaryTexts
  fields : ∀ f ∈ r.fields, IsOrdinary f.name

instance : DecidablePred Register.HasOrdinaryTexts := fun r =>
  decidable_of_iff' _ (Register.hasOrdinaryTexts_iff r)

/-- The texts of the cluster are ordinary, descriptions apart. -/
@[mk_iff]
structure Cluster.HasOrdinaryTexts (c : Cluster) : Prop where
  name : IsOrdinary c.name
  dim : ∀ d ∈ c.dim, d.HasOrdinaryTexts

instance : DecidablePred Cluster.HasOrdinaryTexts := fun c =>
  decidable_of_iff' _ (Cluster.hasOrdinaryTexts_iff c)

namespace Element

mutual

/-- The texts in the element are ordinary, descriptions apart. -/
def hasOrdinaryTexts : Element → Bool
  | register r => decide r.HasOrdinaryTexts
  | cluster c es => decide c.HasOrdinaryTexts && hasOrdinaryTextsAll es

/-- The texts in the elements are ordinary, descriptions apart. -/
def hasOrdinaryTextsAll : List Element → Bool
  | [] => true
  | e :: es => e.hasOrdinaryTexts && hasOrdinaryTextsAll es

end

theorem hasOrdinaryTextsAll_iff {es : List Element} :
    hasOrdinaryTextsAll es = true ↔ ∀ e ∈ es, e.hasOrdinaryTexts = true := by
  induction es with
  | nil => simp [hasOrdinaryTextsAll]
  | cons e es ih => rw [hasOrdinaryTextsAll, Bool.and_eq_true, ih, List.forall_mem_cons]

theorem hasOrdinaryTexts_register {r : Register} :
    (register r).hasOrdinaryTexts = true ↔ r.HasOrdinaryTexts := decide_eq_true_iff

theorem hasOrdinaryTexts_cluster {c : Cluster} {es : List Element} :
    (cluster c es).hasOrdinaryTexts = true ↔
      c.HasOrdinaryTexts ∧ ∀ e ∈ es, e.hasOrdinaryTexts = true := by
  rw [hasOrdinaryTexts, Bool.and_eq_true, decide_eq_true_iff, hasOrdinaryTextsAll_iff]

end Element

/-- The texts of the peripheral are ordinary, descriptions apart. -/
@[mk_iff]
structure Peripheral.HasOrdinaryTexts (p : Peripheral) : Prop where
  name : IsOrdinary p.name
  groupName : ∀ n ∈ p.groupName, IsOrdinary n
  headerStructName : ∀ n ∈ p.headerStructName, IsOrdinary n
  derivedFrom : ∀ n ∈ p.derivedFrom, IsOrdinary n
  interrupts : ∀ i ∈ p.interrupts, IsOrdinary i.name
  registers : Element.hasOrdinaryTextsAll p.registers = true

instance : DecidablePred Peripheral.HasOrdinaryTexts := fun p =>
  decidable_of_iff' _ (Peripheral.hasOrdinaryTexts_iff p)

/-- The texts of the vectors are ordinary, descriptions apart. -/
def VectorTable.HasOrdinaryTexts (t : VectorTable) : Prop :=
  ∀ e ∈ t.entries, IsOrdinary e.2.name ∧ ∀ h ∈ e.2.handler, IsOrdinary h

instance : DecidablePred VectorTable.HasOrdinaryTexts := fun t =>
  inferInstanceAs (Decidable (∀ e ∈ t.entries, _))

/-- The texts of the device are ordinary, descriptions apart. -/
@[mk_iff]
structure Device.HasOrdinaryTexts (d : Device) : Prop where
  name : IsOrdinary d.name
  version : IsOrdinary d.version
  equivalentDevices : ∀ n ∈ d.equivalentDevices, IsOrdinary n
  cpu : ∀ c ∈ d.cpu, IsOrdinary c.name
  peripherals : ∀ p ∈ d.peripherals, p.HasOrdinaryTexts
  vectorTable : ∀ t ∈ d.vectorTable, t.HasOrdinaryTexts

instance : DecidablePred Device.HasOrdinaryTexts := fun d =>
  decidable_of_iff' _ (Device.hasOrdinaryTexts_iff d)

/-! ## Names made from them -/

theorem Placeholder.isOrdinary_fill {index name : String} (hindex : IsOrdinary index)
    (h : IsOrdinary name) : IsOrdinary (fill index name) :=
  h.replaceAll hindex

theorem Placeholder.isOrdinary_dropFrom {name : String} (h : IsOrdinary name) :
    IsOrdinary (dropFrom name) :=
  have hnone : IsOrdinary "" := by decide
  (h.replaceAll hnone).replaceAll hnone

theorem isOrdinary_rename {table : List Renaming} {name : String}
    (htable : (table.all fun r => r.template.isBare) = true) (h : IsOrdinary name) :
    IsOrdinary (Renaming.rename table name) :=
  h.of_mem fun _ => Renaming.mem_rename htable

theorem Dim.HasOrdinaryTexts.indexText {d : Dim} (h : d.HasOrdinaryTexts) (i : Nat) :
    IsOrdinary (d.indexText i) := by
  have hindex : IsOrdinary (d.indexes.getD i "") := by
    rw [List.getD_eq_getElem?_getD]
    cases hi : d.indexes[i]? with
    | none => decide
    | some s => exact h s (List.mem_of_getElem? hi)
  refine hindex.of_mem fun c hc => ?_
  rw [Dim.indexText, String.toList_ofList] at hc
  exact (List.takeWhile_prefix _).mem hc

theorem Member.isOrdinary_elementName {name : String} {d : Option Dim}
    (hd : ∀ d' ∈ d, d'.HasOrdinaryTexts) (h : IsOrdinary name) (i : Nat) :
    IsOrdinary (elementName name d i) := by
  cases d with
  | none => exact h
  | some d => exact Placeholder.isOrdinary_fill ((hd d rfl).indexText i) h

namespace Cluster

variable {c : Cluster}

theorem HasOrdinaryTexts.baseName (h : c.HasOrdinaryTexts) : IsOrdinary c.baseName := by
  refine IsOrdinary.trim fun x hx => h.name x ?_
  rw [String.toList_ofList] at hx
  exact (List.takeWhile_prefix _).mem hx

theorem HasOrdinaryTexts.macroFormat {format : String} (h : c.HasOrdinaryTexts)
    (hformat : c.macroFormat? = some format) : IsOrdinary format := by
  obtain ⟨⟨before, after⟩, hcut, rfl⟩ := Option.map_eq_some_iff.1 hformat
  refine IsOrdinary.trim fun x hx => h.name x ?_
  rw [String.toList_ofList] at hx
  rw [(Text.eq_append_of_cut? hcut).1]
  exact List.mem_append_right _ (List.mem_cons_of_mem _ hx)

end Cluster

namespace Peripheral

variable {p : Peripheral}

theorem HasOrdinaryTexts.ownGroupName (h : p.HasOrdinaryTexts) : IsOrdinary p.ownGroupName := by
  rw [Peripheral.ownGroupName]
  cases hgroup : p.groupName with
  | none => exact isOrdinary_rename rfl h.name
  | some g => exact h.groupName g hgroup

theorem HasOrdinaryTexts.typedefName (h : p.HasOrdinaryTexts) (common : Bool) :
    IsOrdinary (Device.typedefName p common) := by
  rw [Device.typedefName]
  split
  · exact isOrdinary_rename rfl h.name
  · exact h.name

end Peripheral

namespace Device

variable {d : Device} {p source : Peripheral}

theorem HasOrdinaryTexts.resolve (h : d.HasOrdinaryTexts) (hp : p ∈ d.peripherals)
    (hsource : d.resolve p = .ok source) : source.HasOrdinaryTexts := by
  unfold Device.resolve at hsource
  split at hsource
  · cases hsource
    exact h.peripherals p hp
  · split at hsource
    · rename_i hfind
      cases hsource
      exact h.peripherals _ (List.mem_of_find?_eq_some (Option.filter_eq_some_iff.1 hfind).1)
    · cases hsource

theorem HasOrdinaryTexts.structName {common : Bool} {name : String} (h : d.HasOrdinaryTexts)
    (hp : p ∈ d.peripherals) (hname : d.structName p common = .ok name) : IsOrdinary name := by
  unfold Device.structName at hname
  split at hname
  · rename_i hn
    cases hname
    exact (h.peripherals p hp).headerStructName _ hn
  · obtain ⟨source, hsource, hname⟩ := bind_eq_ok.1 hname
    split at hname
    · cases hname
      exact (h.peripherals p hp).typedefName common
    · cases hname
      cases hn : source.headerStructName with
      | none => exact (h.resolve hp hsource).typedefName common
      | some n => exact (h.resolve hp hsource).headerStructName n hn

theorem HasOrdinaryTexts.groupName {group : String} (h : d.HasOrdinaryTexts)
    (hp : p ∈ d.peripherals) (hsource : d.resolve p = .ok source)
    (hgroup : d.groupName source = .ok group) : IsOrdinary group := by
  have hordinary := h.resolve hp hsource
  unfold Device.groupName at hgroup
  split at hgroup
  · rename_i hg
    cases hgroup
    exact hordinary.groupName _ hg
  · rw [d.resolve_of_not_isDerived (not_isDerived_of_resolve hsource)] at hgroup
    simp only [bind, Except.bind, if_true] at hgroup
    cases hgroup
    exact hordinary.ownGroupName

end Device

theorem Interrupt.isOrdinary_handlerName {i : Interrupt} (hname : IsOrdinary i.name)
    (hhandler : ∀ h ∈ i.handler, IsOrdinary h) : IsOrdinary i.handlerName := by
  have hcore : ∀ e ∈ CoreException.all, IsOrdinary e.handler := by decide +kernel
  unfold handlerName
  split
  · rename_i h hh
    exact hhandler h hh
  · split
    · split
      · rename_i e he
        exact hcore e (List.mem_of_find?_eq_some he)
      · exact hname.append (by decide +kernel)
    · exact hname.append (by decide +kernel)

end RegisterMap
