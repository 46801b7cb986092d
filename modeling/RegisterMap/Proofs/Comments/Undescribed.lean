import RegisterMap.Device
import RegisterMap.Proofs.Header.Mapping
import RegisterMap.Proofs.Layout.Outline

/-!
# Devices without descriptions

A device with all its descriptions left blank (`Device.undescribed`): what two devices have in
common that differ in descriptions only. Everything but the descriptions is found in it as before.
-/

namespace RegisterMap

/-! ## Descriptions left blank -/

def Enumeration.undescribed (e : Enumeration) : Enumeration := { e with description := "" }

def Field.undescribed (f : Field) : Field :=
  { f with description := "", enumerations := f.enumerations.map Enumeration.undescribed }

def Register.undescribed (r : Register) : Register :=
  { r with description := "", fields := r.fields.map Field.undescribed }

def Cluster.undescribed (c : Cluster) : Cluster := { c with description := "" }

def Interrupt.undescribed (i : Interrupt) : Interrupt := { i with description := "" }

namespace Element

mutual

/-- The element with blank descriptions. -/
def undescribed : Element → Element
  | register r => register r.undescribed
  | cluster c es => cluster c.undescribed (undescribedAll es)

/-- The elements with blank descriptions. -/
def undescribedAll : List Element → List Element
  | [] => []
  | e :: es => e.undescribed :: undescribedAll es

end

theorem undescribedAll_eq_map (es : List Element) : undescribedAll es = es.map undescribed := by
  induction es with
  | nil => rfl
  | cons e es ih => rw [undescribedAll, ih, List.map_cons]

end Element

/-- The table with blank descriptions. -/
def VectorTable.undescribed (t : VectorTable) : VectorTable where
  entries := t.entries.map fun (k, i) => (k, i.undescribed)
  sorted := List.pairwise_map.2 t.sorted

def Peripheral.undescribed (p : Peripheral) : Peripheral :=
  { p with
    description := ""
    registers := Element.undescribedAll p.registers
    interrupts := p.interrupts.map Interrupt.undescribed }

/-- The device with blank descriptions. -/
def Device.undescribed (d : Device) : Device :=
  { d with
    description := ""
    peripherals := d.peripherals.map Peripheral.undescribed
    vectorTable := d.vectorTable.map VectorTable.undescribed }

/-! ## What stays -/

namespace Element

mutual

theorem outline_undescribed : (e : Element) → e.undescribed.outline = e.outline
  | .register _ => rfl
  | .cluster c es => by
    rw [undescribed, outline, outline, outlineAll_undescribedAll es]
    rfl

theorem outlineAll_undescribedAll : (es : List Element) →
    outlineAll (undescribedAll es) = outlineAll es
  | [] => rfl
  | e :: es => by
    rw [undescribedAll, outlineAll, outlineAll, outline_undescribed e,
      outlineAll_undescribedAll es]

end

theorem precedes_undescribed (e f : Element) : e.undescribed.precedes f.undescribed =
    e.precedes f := by
  have houtline (e : Element) : e.undescribed.offset = e.offset ∧
      e.undescribed.totalSize = e.totalSize ∧ e.undescribed.name = e.name := by
    refine ⟨?_, ?_, ?_⟩
    · rw [← offset_outline, outline_undescribed, offset_outline]
    · rw [← totalSize_outline, outline_undescribed, totalSize_outline]
    · rw [← name_outline, outline_undescribed, name_outline]
  simp only [precedes, order, houtline]

theorem sortLevel_undescribedAll (es : List Element) :
    sortLevel (undescribedAll es) = undescribedAll (sortLevel es) := by
  rw [undescribedAll_eq_map, undescribedAll_eq_map]
  exact (List.map_mergeSort fun e _ f _ => (precedes_undescribed e f).symm).symm

mutual

theorem sortWithin_undescribed : (e : Element) → e.undescribed.sortWithin = e.sortWithin.undescribed
  | .register _ => rfl
  | .cluster c es => by
    rw [undescribed, sortWithin, sortEach_undescribedAll es, sortLevel_undescribedAll, sortWithin,
      undescribed]

theorem sortEach_undescribedAll : (es : List Element) →
    sortEach (undescribedAll es) = undescribedAll (sortEach es)
  | [] => rfl
  | e :: es => by
    rw [undescribedAll, sortEach, sortEach, undescribedAll, sortWithin_undescribed e,
      sortEach_undescribedAll es]

end

theorem sortAll_undescribedAll (es : List Element) :
    sortAll (undescribedAll es) = undescribedAll (sortAll es) := by
  rw [sortAll, sortEach_undescribedAll, sortLevel_undescribedAll, sortAll]

mutual

theorem registers_undescribed : (e : Element) →
    e.undescribed.registers = e.registers.map Register.undescribed
  | .register _ => rfl
  | .cluster _ es => registersAll_undescribedAll es

theorem registersAll_undescribedAll : (es : List Element) →
    registersAll (undescribedAll es) = (registersAll es).map Register.undescribed
  | [] => rfl
  | e :: es => by
    rw [undescribedAll, registersAll, registersAll, registers_undescribed e,
      registersAll_undescribedAll es, List.map_append]

end

mutual

theorem find?_undescribed (name : String) : (e : Element) →
    e.undescribed.find? name = (e.find? name).map Register.undescribed
  | .register r => by
    rw [undescribed, find?, find?]
    show (if r.name == name then _ else _) = _
    split <;> rfl
  | .cluster _ es => findIn?_undescribedAll name es

theorem findIn?_undescribedAll (name : String) : (es : List Element) →
    findIn? name (undescribedAll es) = (findIn? name es).map Register.undescribed
  | [] => rfl
  | e :: es => by
    rw [undescribedAll, findIn?, findIn?, find?_undescribed name e,
      findIn?_undescribedAll name es]
    cases e.find? name <;> rfl

end

end Element

namespace Peripheral

theorem keepsIdentity_undescribed : KeepsIdentity undescribed where
  name _ := rfl
  derivedFrom _ := rfl
  headerStructName _ := rfl
  groupName _ := rfl
  baseAddress _ := rfl
  numberNames p := by
    rw [undescribed, List.map_map]
    rfl

theorem keepsBits_undescribed : FieldMacro.KeepsBits Register.undescribed Field.undescribed where
  name _ := rfl
  width _ := rfl
  derivedFrom _ := rfl
  flags _ := rfl
  fieldName _ := rfl
  bitOffset _ := rfl
  bitWidth _ := rfl

theorem fieldsOf_undescribed (p : Peripheral) (r : Register) :
    p.undescribed.fieldsOf r.undescribed = (p.fieldsOf r).map (List.map Field.undescribed) := by
  unfold fieldsOf
  rw [show r.undescribed.derivedFrom = r.derivedFrom from rfl]
  cases r.derivedFrom with
  | none => rfl
  | some source =>
    simp only [show p.undescribed.registers = Element.undescribedAll p.registers from rfl,
      Element.findIn?_undescribedAll]
    cases Element.findIn? source p.registers <;> rfl

end Peripheral

/-- Field macros do not show descriptions. -/
theorem FieldMacro.ofPeripheral_undescribed (s : Settings) (p : Peripheral)
    (defined : DefinedMacros) :
    ofPeripheral s p.undescribed defined = ofPeripheral s p defined := by
  have hregisters := ofRegisters_map Peripheral.keepsBits_undescribed (p := p)
    (q := p.undescribed) rfl s p.fieldsOf_undescribed defined
  unfold ofPeripheral
  rw [show p.undescribed.registers = Element.undescribedAll p.registers from rfl,
    Element.sortAll_undescribedAll, Element.registersAll_undescribedAll, hregisters]
  rfl

namespace AccessMacro

theorem ofElement_undescribed (s : Settings) (peripheral : String) (e : Element) :
    ofElement s peripheral e.undescribed = ofElement s peripheral e := by
  have hregister (r : Register) : ofRegister r.undescribed = ofRegister r := by
    unfold ofRegister
    rw [show r.undescribed.dim = r.dim from rfl]
    cases r.dim <;> rfl
  cases e with
  | register r =>
    show (if r.flags.hidden then [] else (ofRegister r.undescribed).map _) =
      (if r.flags.hidden then [] else (ofRegister r).map _)
    rw [hregister]
  | cluster c es =>
    have hvisible (e : Element) : visible? e.undescribed =
        (visible? e).map Register.undescribed := by
      cases e with
      | register r =>
        show (if r.flags.hidden then none else _) = Option.map _ (if r.flags.hidden then _ else _)
        split <;> rfl
      | cluster _ _ => rfl
    have hregisters : ((Element.sortLevel (Element.undescribedAll es)).filterMap visible?).flatMap
        ofRegister = ((Element.sortLevel es).filterMap visible?).flatMap ofRegister := by
      rw [Element.sortLevel_undescribedAll, Element.undescribedAll_eq_map, List.filterMap_map,
        show visible? ∘ Element.undescribed = fun e => (visible? e).map Register.undescribed from
          funext hvisible, ← List.map_filterMap, List.flatMap_map]
      simp only [hregister]
    show (if c.flags.hidden then [] else ofCluster s peripheral c.undescribed _) =
      (if c.flags.hidden then [] else ofCluster s peripheral c es)
    unfold ofCluster
    rw [hregisters]
    rfl

/-- Register macros do not show descriptions. -/
theorem ofPeripheral_undescribed (s : Settings) (p owner : Peripheral) :
    ofPeripheral s p.undescribed owner.undescribed = ofPeripheral s p owner := by
  unfold ofPeripheral
  rw [show owner.undescribed.registers = Element.undescribedAll owner.registers from rfl,
    Element.sortLevel_undescribedAll, Element.undescribedAll_eq_map, List.flatMap_map]
  simp only [ofElement_undescribed]
  rfl

end AccessMacro

end RegisterMap
