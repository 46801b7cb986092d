import RegisterMap.Proofs.Derivation
import RegisterMap.Proofs.Ensures
import RegisterMap.Proofs.FieldBits
import RegisterMap.Proofs.Validity
import RegisterMap.Proofs.Xml.Document
import RegisterMap.Svd.Device

/-!
# Devices that are read are well-formed

What the reader of SVD keeps while it goes through a document, level by level: enumerations with the
default last, derived records without parts of their own, peripherals under different names behind
their sources. With the check at the end, every device that is read is well-formed
(`Device.wellFormed_of_readSvd`), whatever the document.
-/

namespace RegisterMap

open Svd Xml

theorem Svd.ensures_pass {σ : Type} {P : σ → Prop} {s : σ} (h : P s) (parent tag : String) :
    Ensures (pass parent tag s) P := by
  unfold pass
  split
  · exact .ok h
  · exact .fail

/-! ## Fields -/

namespace Field

/-- No enumeration before the last is a default. -/
def HasDefaultLast (f : Field) : Prop := ∀ e ∈ f.enumerations.dropLast, e.isDefault = false

/-- The field is as the reader leaves it: with the default last, and without enumerations if it is
derived. -/
structure IsSettled (f : Field) : Prop where
  defaultLast : f.HasDefaultLast
  bare : f.derivedFrom.isSome = true → f.enumerations = []

theorem dropLast_insertOrdered {e : Enumeration} {es : List Enumeration}
    (h : ∀ x ∈ es.dropLast, x.isDefault = false) (he : e.isDefault = false) :
    ∀ x ∈ (insertOrdered e es).dropLast, x.isDefault = false := by
  induction es with
  | nil => simp [insertOrdered]
  | cons a es ih =>
    cases ha : a.isDefault with
    | true =>
      -- a default is the last of all
      have hnil : es = [] := by
        by_contra hne
        have hmem : a ∈ (a :: es).dropLast := by
          rw [List.dropLast_cons_of_ne_nil hne]
          exact List.mem_cons_self
        rw [h a hmem] at ha
        cases ha
      subst hnil
      simpa [insertOrdered, ha] using he
    | false =>
      have hcons : insertOrdered e (a :: es) = a :: insertOrdered e es := by
        simp [insertOrdered, ha]
      have hne : insertOrdered e es ≠ [] := by simp [insertOrdered]
      rw [hcons, List.dropLast_cons_of_ne_nil hne]
      refine List.forall_mem_cons.2 ⟨ha, ih fun x hx => h x ?_⟩
      have hes : es ≠ [] := fun hnil => by simp [hnil] at hx
      rw [List.dropLast_cons_of_ne_nil hes]
      exact List.mem_cons_of_mem a hx

theorem ensures_addEnumeration {f : Field} (h : f.HasDefaultLast) (e : Enumeration) :
    Ensures (f.addEnumeration e) fun g => g.HasDefaultLast ∧ g.derivedFrom = f.derivedFrom := by
  unfold addEnumeration
  split
  · exact .fail
  · rename_i hsecond
    split
    · rename_i hdefault
      refine .ok ⟨?_, rfl⟩
      simpa [HasDefaultLast, hdefault] using hsecond
    · rename_i hdefault
      exact .ok ⟨dropLast_insertOrdered h (by simpa using hdefault), rfl⟩

theorem ensures_start (siblings : List Field) (attributes : List Attribute) :
    Ensures (start siblings attributes) fun f => f.enumerations = [] := by
  unfold start
  split
  · exact .ok rfl
  · split
    · exact .ok rfl
    · exact .fail

theorem Draft.ensures_step (d : Draft) (n : Node) :
    Ensures (d.step n) fun d' => d'.field.enumerations = d.field.enumerations := by
  cases n with
  | element name attributes children =>
    simp only [Draft.step]
    split
    case h_1 | h_2 | h_9 => exact .ok rfl
    case h_3 | h_4 | h_5 | h_6 | h_7 | h_8 => exact .seq fun _ => .ok rfl
    case h_10 =>
      exact ensures_pass (P := fun d' : Draft => d'.field.enumerations = d.field.enumerations)
        rfl _ _
  | text s => exact .ok rfl
  | instruction target value =>
    refine .ok ?_
    split <;> rfl
  | comment => exact .ok rfl

theorem ensures_addSvd {f : Field} (h : f.enumerations = []) (nodes : List Node) :
    Ensures (f.addSvd nodes) IsSettled := by
  unfold addSvd
  split
  · exact .fail
  · rename_i hunderived
    have hnone : f.derivedFrom = none := by simpa using hunderived
    have hlast : f.HasDefaultLast := by simp [HasDefaultLast, h]
    have hall : Ensures ((childrenOf "enumeratedValue" nodes).foldlM
        (fun f children => do
          f.addEnumeration (← within (.field f.name) (Enumeration.ofSvd f.bitWidth children))) f)
        fun g : Field => g.HasDefaultLast ∧ g.derivedFrom = none :=
      .foldlM _ ⟨hlast, hnone⟩ fun g children hg =>
        .seq fun e => (ensures_addEnumeration hg.1 e).mono fun g' hg' => ⟨hg'.1, hg'.2.trans hg.2⟩
    exact hall.mono fun g hg => ⟨hg.1, fun hderived => by simp [hg.2] at hderived⟩

/-- Enumerations are read if there are any. -/
theorem ensures_addNodes {P : Field → Prop} {f : Field} (h : P f)
    (hadd : ∀ nodes, Ensures (f.addSvd nodes) P) (nodes : Option (List Node)) :
    Ensures (match nodes with | some nodes => f.addSvd nodes | none => pure f) P := by
  cases nodes with
  | some nodes => exact hadd nodes
  | none => exact .ok h

theorem ensures_ofSvd (siblings : List Field) (attributes : List Attribute)
    (children : List Node) : Ensures (ofSvd siblings attributes children) IsSettled := by
  have hparts (f : Field) (hf : f.enumerations = []) :
      Ensures (children.foldlM Draft.step { field := f }) fun d => d.field.enumerations = [] :=
    .foldlM (I := fun d : Draft => d.field.enumerations = []) children hf
      fun d n hd => (d.ensures_step n).mono fun _ hd' => hd'.trans hd
  unfold ofSvd
  refine (ensures_start siblings attributes).bind fun f hf => (hparts f hf).bind fun d hd => ?_
  refine .seq fun bits => ?_
  have hnodes (f : Field) (h : f.enumerations = []) :=
    ensures_addNodes (P := IsSettled) ⟨by simp [HasDefaultLast, h], fun _ => h⟩ (ensures_addSvd h)
      d.enumerations
  rcases bits with _ | ⟨offset, width⟩
  · exact hnodes d.field hd
  · exact hnodes { d.field with bitOffset := offset, bitWidth := width } hd

end Field

/-! ## Registers -/

namespace Register

/-- The register is as the reader leaves it: its fields are, and it has none if it is derived. -/
structure IsSettled (r : Register) : Prop where
  fields : ∀ f ∈ r.fields, f.IsSettled
  bare : r.derivedFrom.isSome = true → r.fields = []

theorem ensures_start (scopes : List (List Element)) (inForce : Defaults)
    (attributes : List Attribute) :
    Ensures (start scopes inForce attributes) fun r => r.fields = [] := by
  unfold start
  split
  · exact .ok rfl
  · split
    · exact .ok rfl
    · exact .fail

/-- The draft has no fields yet, and has not found any for a derived register. -/
structure Draft.IsOpen (d : Draft) : Prop where
  fields : d.register.fields = []
  bare : d.register.derivedFrom.isSome = true → d.fields = none

theorem Draft.ensures_stepElement {d : Draft} (h : d.IsOpen) (tag : String)
    (children : List Node) : Ensures (d.stepElement tag children) IsOpen := by
  unfold stepElement
  split
  case h_1 | h_2 | h_3 => exact .ok ⟨h.fields, h.bare⟩
  case h_4 | h_5 | h_6 | h_7 | h_8 => exact .seq fun _ => .ok ⟨h.fields, h.bare⟩
  case h_9 =>
    split
    · rename_i hunderived
      refine .ok ⟨h.fields, fun hderived => ?_⟩
      rw [← Option.not_isSome, hderived] at hunderived
      cases hunderived
    · exact ensures_pass h _ _
  case h_10 => exact ensures_pass h _ _

theorem Draft.ensures_step {d : Draft} (h : d.IsOpen) (n : Node) : Ensures (d.step n) IsOpen := by
  cases n with
  | element name attributes children =>
    refine .seq fun dim => ?_
    split
    · exact .ok ⟨h.fields, h.bare⟩
    · exact ensures_stepElement h _ _
  | text s => exact .ok h
  | instruction target value => exact .ok ⟨h.fields, h.bare⟩
  | comment => exact .ok h

theorem ensures_addSvd {r : Register} (h : ∀ f ∈ r.fields, f.IsSettled) (n : Node) :
    Ensures (r.addSvd n) fun s =>
      (∀ f ∈ s.fields, f.IsSettled) ∧ s.derivedFrom = r.derivedFrom := by
  cases n with
  | element name attributes children =>
    rw [addSvd]
    split
    · refine (Ensures.within (Field.ensures_ofSvd r.fields attributes children)).bind
        fun f hf => .ok ?_
      split
      · exact ⟨h, rfl⟩
      · exact ⟨List.forall_mem_append.2 ⟨h, List.forall_mem_singleton.2 hf⟩, rfl⟩
    · exact ensures_pass
        (P := fun s : Register => (∀ f ∈ s.fields, f.IsSettled) ∧ s.derivedFrom = r.derivedFrom)
        ⟨h, rfl⟩ _ _
  | text s => exact .ok ⟨h, rfl⟩
  | instruction target value => exact .ok ⟨h, rfl⟩
  | comment => exact .ok ⟨h, rfl⟩

theorem ensures_ofSvd (scopes : List (List Element)) (inForce : Defaults)
    (attributes : List Attribute) (children : List Node) :
    Ensures (ofSvd scopes inForce attributes children) IsSettled := by
  have hparts (r : Register) (hr : r.fields = []) :
      Ensures (children.foldlM Draft.step { register := r }) Draft.IsOpen :=
    .foldlM children ⟨hr, fun _ => rfl⟩ fun d n hd => Draft.ensures_step hd n
  have hfields (d : Draft) (hd : d.IsOpen) (name : String) (dim : Option Dim) :
      Ensures ((d.fields.getD []).foldlM addSvd { d.register with name, dim }) IsSettled := by
    cases hderived : d.register.derivedFrom with
    | some source =>
      rw [hd.bare (by simp [hderived])]
      exact .ok ⟨by simp [hd.fields], fun _ => hd.fields⟩
    | none =>
      have hall := Ensures.foldlM
        (I := fun s : Register => (∀ f ∈ s.fields, f.IsSettled) ∧ s.derivedFrom = none)
        (s := { d.register with name, dim }) (d.fields.getD []) ⟨by simp [hd.fields], hderived⟩
        fun s n hs => (ensures_addSvd hs.1 n).mono fun t ht => ⟨ht.1, ht.2.trans hs.2⟩
      exact hall.mono fun s hs => ⟨hs.1, fun hsome => by simp [hs.2] at hsome⟩
  unfold ofSvd
  refine (ensures_start scopes inForce attributes).bind fun r hr => ?_
  refine (hparts r hr).bind fun d hd => ?_
  dsimp only
  split
  · split
    · exact .seq fun name => .seq fun dim => hfields d hd name dim
    · exact .seq fun name => .seq fun dim => hfields d hd name dim
  · exact .seq fun name => .seq fun dim => hfields d hd name dim

end Register

/-! ## Lists of registers and clusters -/

namespace Element

/-- Every register in the elements is as the reader leaves it. -/
def AreSettled (es : List Element) : Prop := ∀ r ∈ registersAll es, r.IsSettled

theorem areSettled_nil : AreSettled [] := fun _ h => absurd h List.not_mem_nil

mutual

theorem ensures_ofSvd? (parent : String) (scopes : List (List Element)) (inForce : Defaults) :
    (n : Node) → Ensures (ofSvd? parent scopes inForce n) fun e => AreSettled e.toList
  | .element name attributes children => by
    rw [ofSvd?]
    split
    · refine (Register.ensures_ofSvd scopes inForce attributes children).bind fun r hr => .ok ?_
      intro s hs
      cases List.mem_singleton.1 hs
      exact hr
    · refine .seq fun c => ?_
      refine (Ensures.within
        (ensures_listOfSvd "cluster" scopes inForce [] areSettled_nil children)).bind
          fun es hes => .ok ?_
      intro s hs
      exact hes s (by simpa [registersAll, registers] using hs)
    · split
      · exact .ok areSettled_nil
      · exact ensures_pass (P := fun e : Option Element => AreSettled e.toList)
          (s := none) areSettled_nil _ _
  | .text s => by
    simp only [ofSvd?]
    exact .ok areSettled_nil
  | .instruction target value => by
    simp only [ofSvd?]
    exact .ok areSettled_nil
  | .comment => by
    simp only [ofSvd?]
    exact .ok areSettled_nil

theorem ensures_listOfSvd (parent : String) (outer : List (List Element)) (inForce : Defaults)
    (done : List Element) (hdone : AreSettled done) :
    (ns : List Node) → Ensures (listOfSvd parent outer inForce done ns) AreSettled
  | [] => by
    rw [listOfSvd]
    exact .ok hdone
  | n :: ns => by
    rw [listOfSvd]
    refine (ensures_ofSvd? parent (done :: outer) inForce n).bind fun e he => ?_
    refine ensures_listOfSvd parent outer inForce (done ++ e.toList) ?_ ns
    intro r hr
    rw [registersAll_append] at hr
    exact (List.mem_append.1 hr).elim (hdone r) (he r)

end

end Element

/-! ## Peripherals -/

namespace Peripheral

/-- The peripheral is as the reader leaves it: it has a name, and neither registers nor address
blocks if it is derived. -/
structure IsSettled (p : Peripheral) : Prop where
  named : p.name ≠ ""
  bare : p.isDerived = true → p.registers = [] ∧ p.addressBlocks = []
  registers : Element.AreSettled p.registers

/-- The peripheral has nothing of its own yet. -/
structure IsBlank (p : Peripheral) : Prop where
  registers : p.registers = []
  addressBlocks : p.addressBlocks = []

theorem ensures_start (common : Bool) (d : Device) (attributes : List Attribute) :
    Ensures (start common d attributes) IsBlank := by
  unfold start
  split
  · exact .ok ⟨rfl, rfl⟩
  · split
    · exact .seq fun _ => .ok ⟨rfl, rfl⟩
    · exact .fail

theorem ensures_hinted {p : Peripheral} (h : p.IsBlank) (attributes : List Attribute) :
    Ensures (p.hinted attributes) IsBlank :=
  .seq fun _ => .seq fun _ => .ok ⟨h.registers, h.addressBlocks⟩

/-- The draft has no registers yet, and nothing of its own if it is derived. -/
structure Draft.IsOpen (d : Draft) : Prop where
  registers : d.peripheral.registers = []
  bare : d.peripheral.isDerived = true → d.peripheral.addressBlocks = [] ∧ d.registers = none

theorem Draft.ensures_step (common : Bool) {d : Draft} (h : d.IsOpen) (n : Node) :
    Ensures (d.step common n) IsOpen := by
  cases n with
  | element name attributes children =>
    rw [step]
    dsimp only
    split
    case h_1 | h_2 | h_3 | h_4 | h_5 | h_6 | h_7 => exact .ok ⟨h.registers, h.bare⟩
    case h_8 | h_9 | h_10 | h_11 | h_12 | h_13 => exact .seq fun _ => .ok ⟨h.registers, h.bare⟩
    case h_14 =>
      split
      · exact .ok h
      · rename_i hunderived
        exact .seq fun b => .ok ⟨h.registers, fun hderived => absurd hderived hunderived⟩
    case h_15 =>
      split
      · exact .fail
      · rename_i hunderived
        exact .ok ⟨h.registers, fun hderived => absurd hderived hunderived⟩
    case h_16 => exact ensures_pass h _ _
  | text s => exact .ok h
  | instruction target value =>
    show Ensures (d.instruct target value) IsOpen
    unfold instruct
    split
    · exact .seq fun _ => .ok ⟨h.registers, h.bare⟩
    · exact .seq fun _ => .ok ⟨h.registers, h.bare⟩
    · exact .ok h
  | comment => exact .ok h

theorem Draft.ensures_registers {d : Draft} (h : d.IsOpen)
    (hname : ¬d.peripheral.name.isEmpty = true) :
    Ensures (match d.registers with
      | none => return d.peripheral
      | some nodes => do
        let es ← within (.peripheral d.peripheral.name)
          (Element.listOfSvd "registers" [] d.peripheral.defaults [] nodes)
        return { d.peripheral with registers := es }) IsSettled := by
  have hnamed : d.peripheral.name ≠ "" := fun h => hname (by simp [h])
  split
  · exact .ok ⟨hnamed, fun hderived => ⟨h.registers, (h.bare hderived).1⟩,
      h.registers ▸ Element.areSettled_nil⟩
  · rename_i hsome
    refine (Ensures.within (Element.ensures_listOfSvd _ _ _ [] Element.areSettled_nil _)).bind
      fun es hes => .ok ⟨hnamed, fun hderived => ?_, hes⟩
    rw [(h.bare hderived).2] at hsome
    cases hsome

theorem ensures_ofSvd (common : Bool) (device : Device) (attributes : List Attribute)
    (children : List Node) :
    Ensures (ofSvd common device attributes children) IsSettled := by
  have hparts (p : Peripheral) (hp : p.IsBlank) :
      Ensures (children.foldlM (Draft.step common) { peripheral := p }) Draft.IsOpen :=
    .foldlM children ⟨hp.registers, fun _ => ⟨hp.addressBlocks, rfl⟩⟩
      fun d n hd => Draft.ensures_step common hd n
  unfold ofSvd
  refine (ensures_start common device attributes).bind fun p hp => ?_
  refine (ensures_hinted hp attributes).bind fun q hq => (hparts q hq).bind fun d hd => ?_
  dsimp only
  split
  · exact .fail_bind
  · rename_i hname
    exact Draft.ensures_registers hd hname

end Peripheral

/-! ## Devices -/

namespace Device

/-- The peripherals are as the reader leaves them, with different names and behind their
sources. -/
structure IsSettled (d : Device) : Prop where
  peripherals : ∀ p ∈ d.peripherals, p.IsSettled
  distinct : d.HasDistinctNames
  sources : ∀ i p source, d.peripherals[i]? = some p → p.derivedFrom = some source →
    ∃ q ∈ d.peripherals.take i, q.name = source ∧ q.isDerived = false

/-- Only the peripherals count. -/
theorem IsSettled.congr {d e : Device} (h : d.IsSettled) (he : e.peripherals = d.peripherals) :
    e.IsSettled where
  peripherals := he ▸ h.peripherals
  distinct := by
    unfold HasDistinctNames
    rw [he]
    exact h.distinct
  sources := he ▸ h.sources

theorem name_ne_of_find?_eq_none {d : Device} {name : String} (h : d.find? name = none) :
    ∀ p ∈ d.peripherals, p.name ≠ name := by
  simpa [find?, List.find?_eq_none] using h

theorem mem_of_find?_eq_some {d : Device} {name : String} {p : Peripheral}
    (h : d.find? name = some p) : p ∈ d.peripherals ∧ p.name = name :=
  ⟨List.mem_of_find?_eq_some h, by simpa using List.find?_some h⟩

theorem source_of_resolve {d : Device} {p s : Peripheral} {source : String}
    (hp : p.derivedFrom = some source) (h : d.resolve p = .ok s) :
    s ∈ d.peripherals ∧ s.name = source ∧ s.isDerived = false := by
  have hderived := not_isDerived_of_resolve h
  unfold resolve at h
  simp only [hp] at h
  split at h
  · rename_i hfound
    cases h
    obtain ⟨hmem, hname⟩ := mem_of_find?_eq_some (Option.filter_eq_some_iff.1 hfound).1
    exact ⟨hmem, hname, hderived⟩
  · cases h

/-- One more peripheral has a new name, and its source, if it has one, is among the others. -/
theorem IsSettled.append {d : Device} (h : d.IsSettled) {p : Peripheral} (hp : p.IsSettled)
    (hnew : d.find? p.name = none)
    (hsource : ∀ source, p.derivedFrom = some source →
      ∃ q ∈ d.peripherals, q.name = source ∧ q.isDerived = false) :
    IsSettled { d with peripherals := d.peripherals ++ [p] } where
  peripherals := List.forall_mem_append.2 ⟨h.peripherals, List.forall_mem_singleton.2 hp⟩
  distinct := by
    unfold HasDistinctNames
    rw [List.map_append, List.nodup_append]
    refine ⟨h.distinct, List.nodup_singleton _, ?_⟩
    simpa using name_ne_of_find?_eq_none hnew
  sources i q source hq hsrc := by
    by_cases hi : i < d.peripherals.length
    · rw [List.getElem?_append_left hi] at hq
      obtain ⟨r, hr, hname⟩ := h.sources i q source hq hsrc
      exact ⟨r, by rwa [List.take_append_of_le_length (Nat.le_of_lt hi)], hname⟩
    · rw [List.getElem?_append_right (Nat.not_lt.1 hi)] at hq
      obtain ⟨hzero, rfl⟩ : i - d.peripherals.length = 0 ∧ p = q := by
        simpa [List.getElem?_singleton] using hq
      have hi : i = d.peripherals.length := by omega
      obtain ⟨r, hr, hname⟩ := hsource source hsrc
      exact ⟨r, by simpa [hi] using hr, hname⟩

theorem ensures_addPeripheral {d : Device} (h : d.IsSettled) {p : Peripheral} (hp : p.IsSettled) :
    Ensures (d.addPeripheral p) IsSettled := by
  unfold addPeripheral
  dsimp only
  split
  · exact .fail_bind
  · rename_i hnew
    have hnew : d.find? p.name = none := by simpa using hnew
    split
    · refine Ensures.bind (P := fun _ => ∃ s, d.resolve p = .ok s) ?_ fun _ hresolved => ?_
      · intro _ hok
        obtain ⟨s, hs⟩ := discard_eq_ok_iff.1 hok
        exact ⟨s, within_eq_ok.1 hs⟩
      · obtain ⟨s, hs⟩ := hresolved
        split
        · exact .fail_bind
        · refine .ok (h.append hp hnew fun source hsource => ?_)
          exact ⟨s, source_of_resolve hsource hs⟩
    · rename_i hunderived
      have hnone : p.derivedFrom = none := by
        simpa [Peripheral.isDerived] using hunderived
      exact .ok (h.append hp hnew (by simp [hnone]))

theorem ensures_stepPeripheral (common : Bool) {d : Device} (h : d.IsSettled) (n : Node) :
    Ensures (d.stepPeripheral common n) IsSettled := by
  cases n with
  | element name attributes children =>
    rw [stepPeripheral]
    split
    · exact (Peripheral.ensures_ofSvd common d attributes children).bind
        fun _ hp => ensures_addPeripheral h hp
    · exact ensures_pass h _ _
  | text s => exact .ok h
  | instruction target value => exact .ok h
  | comment => exact .ok h

theorem ensures_stepPart (common : Bool) {d : Device} (h : d.IsSettled) (tag : String)
    (children : List Node) : Ensures (d.stepPart common tag children) IsSettled := by
  unfold stepPart
  split
  case h_1 | h_2 | h_3 => exact .ok (h.congr rfl)
  case h_4 | h_5 | h_6 | h_7 | h_8 | h_9 | h_10 => exact .seq fun _ => .ok (h.congr rfl)
  case h_11 => exact .foldlM children h fun d n hd => ensures_stepPeripheral common hd n
  case h_12 => exact ensures_pass h _ _

theorem ensures_extend {d : Device} (h : d.IsSettled) (i : Interrupt) :
    Ensures (d.extend i).toExcept IsSettled := by
  unfold extend
  split
  · exact .ok h
  · rw [Outcome.toExcept_ofExcept]
    exact .seq fun _ => .ok (h.congr rfl)

theorem ensures_addNumbered (last : Int) {d : Device} (h : d.IsSettled)
    (elements : List (List Node)) : Ensures (d.addNumbered last elements).toExcept IsSettled := by
  induction elements generalizing last d with
  | nil => exact .ok h
  | cons children rest ih =>
    rw [addNumbered]
    split
    · exact .of_failure rfl
    · rename_i i _
      rw [Outcome.toExcept_andThen]
      exact (ensures_extend h i).bind fun _ hd => ih i.index hd

theorem ensures_stepExtension {d : Device} (h : d.IsSettled) (n : Node) :
    Ensures (d.stepExtension n).toExcept IsSettled := by
  cases n with
  | element name attributes children =>
    rw [stepExtension]
    split
    · exact .ok (h.congr rfl)
    · exact ensures_addNumbered _ h _
    · exact .ok h
  | text s => exact .ok h
  | instruction target value => exact .ok h
  | comment => exact .ok h

theorem ensures_stepSvd (common : Bool) {d : Device} (h : d.IsSettled) (n : Node) :
    Ensures (d.stepSvd common n).toExcept IsSettled := by
  cases n with
  | element name attributes children =>
    rw [stepSvd]
    split
    · exact .foldl_andThen children h fun d n hd => ensures_stepExtension hd n
    · rw [Outcome.toExcept_ofExcept]
      exact ensures_stepPart common h _ _
  | text s => exact .ok h
  | instruction target value => exact .ok h
  | comment => exact .ok h

/-- A document that is read gives a settled device, and the check at the end accepts it. -/
theorem ensures_ofSvd (common : Bool) (root : Node) :
    Ensures (ofSvd common root).toExcept fun d => d.IsSettled ∧ d.validate = .ok () := by
  have hblank : IsSettled { name := "" } :=
    { peripherals := by simp
      distinct := List.nodup_nil
      sources := by simp }
  have hcheck (d : Device) (h : d.IsSettled) :
      Ensures (Outcome.check d d.checkRead).toExcept
        fun e => e.IsSettled ∧ e.validate = .ok () := by
    intro e he
    obtain ⟨hread, rfl⟩ := Outcome.check_ok he
    refine ⟨h, ?_⟩
    unfold checkRead at hread
    split at hread
    · cases hread
    · exact within_eq_ok.1 hread
  cases root with
  | element name attributes children =>
    simp only [ofSvd]
    split
    · rw [Outcome.toExcept_andThen]
      exact (Ensures.foldl_andThen children hblank
        fun d n hd => ensures_stepSvd common hd n).bind hcheck
    · exact .of_failure rfl
  | text s => exact .of_failure rfl
  | instruction target value => exact .of_failure rfl
  | comment => exact .of_failure rfl

end Device

/-! ## Well-formed devices -/

/-- A field among the fields of its register: in the register and in a word, with the default last
among its enumerations, or with those of another field that is not derived. -/
structure Field.WellFormed (width : Nat) (siblings : List Field) (f : Field) : Prop where
  nonempty : 0 < f.bitWidth
  inside : f.bitEnd ≤ width ∧ f.bitEnd ≤ 64
  defaultLast : f.HasDefaultLast
  bare : f.derivedFrom.isSome = true → f.enumerations = []
  source : ∀ name, f.derivedFrom = some name →
    ∃ g ∈ siblings, g.name = name ∧ g.derivedFrom = none

/-- A register in the tree of its peripheral. -/
structure Register.WellFormed (tree : List Element) (r : Register) : Prop where
  fields : ∀ f ∈ r.fields, f.WellFormed r.width r.fields
  apart : (Register.exclusive r.fields).Pairwise Field.Apart
  bare : r.derivedFrom.isSome = true → r.fields = []
  source : ∀ name, r.derivedFrom = some name →
    ∃ s ∈ Element.registersAll tree, Element.findIn? name tree = some s ∧ s.derivedFrom = none

/-- Peripherals have names of their own, those that derive from another one stand behind it, and
everything in them is well-formed. -/
structure Device.WellFormed (d : Device) : Prop where
  named : ∀ p ∈ d.peripherals, p.name ≠ ""
  distinct : (d.peripherals.map Peripheral.name).Nodup
  bare : ∀ p ∈ d.peripherals, p.derivedFrom.isSome = true →
    p.registers = [] ∧ p.addressBlocks = []
  source : ∀ i p name, d.peripherals[i]? = some p → p.derivedFrom = some name →
    ∃ q ∈ d.peripherals.take i, q.name = name ∧ q.derivedFrom = none
  registers : ∀ p ∈ d.peripherals, ∀ r ∈ Element.registersAll p.registers,
    r.WellFormed p.registers

/-- A register that the reader leaves as it does and the check accepts is well-formed. -/
theorem Register.IsSettled.wellFormed {r : Register} {tree : List Element} (h : r.IsSettled)
    (hvalid : r.validate = .ok ()) (hfollows : Peripheral.Follows tree r) :
    r.WellFormed tree := by
  obtain ⟨hbits, -, hsources⟩ := validate_eq_ok_iff.1 hvalid
  obtain ⟨hinside, hapart⟩ := checkFieldBits_eq_ok_iff.1 hbits
  refine ⟨fun f hf => ?_, hapart, h.bare, fun name hname => ?_⟩
  · exact
      { nonempty := (hinside f hf).1
        inside := (hinside f hf).2
        defaultLast := (h.fields f hf).defaultLast
        bare := (h.fields f hf).bare
        source := exists_enumerationsAmong_iff.1 (hsources f hf) }
  · obtain ⟨s, hs, hunderived⟩ := hfollows name hname
    exact ⟨s, Element.mem_registersAll_of_findIn? tree hs, hs, hunderived⟩

namespace Device

theorem IsSettled.wellFormed {d : Device} (h : d.IsSettled) (hvalid : d.validate = .ok ()) :
    d.WellFormed where
  named p hp := (h.peripherals p hp).named
  distinct := h.distinct
  bare p hp := (h.peripherals p hp).bare
  source i p name hp hname := by
    obtain ⟨q, hq, hsource, hunderived⟩ := h.sources i p name hp hname
    exact ⟨q, hq, hsource, by simpa [Peripheral.isDerived] using hunderived⟩
  registers p hp r hr := by
    obtain ⟨-, hchecked⟩ := validate_eq_ok_iff.1 hvalid p hp
    obtain ⟨-, hregisters⟩ := Peripheral.validate_eq_ok_iff.1 hchecked
    obtain ⟨hr', hfollows⟩ := hregisters r hr
    exact ((h.peripherals p hp).registers r hr).wellFormed hr' hfollows

/-- **Reading.** Whatever text is read as a device, the device is well-formed. -/
theorem wellFormed_of_readSvd {common : Bool} {text : String} {d : Device}
    (h : (readSvd common text).toExcept = .ok d) : d.WellFormed := by
  unfold readSvd at h
  split at h
  · rename_i root _
    obtain ⟨hsettled, hvalid⟩ := ensures_ofSvd common root d h
    exact hsettled.wellFormed hvalid
  · cases h

section Example

/-- A document with timers one derived from the other, whose registers and fields are derived too,
and with an enumeration in front of which the default stands. -/
private def timersTree : Node :=
  let named (name : String) : Node := .leaf "name" name
  let bits (low width : Nat) : List Node := [decimal "bitOffset" low, decimal "bitWidth" width]
  .group "device" [named "D", .group "peripherals" [
    .group "peripheral" [named "TIM0", hex "baseAddress" 0x40000000, .group "registers" [
      .group "register" [named "CH0", hex "addressOffset" 0, .group "fields" [
        .group "field" <| [named "ON"] ++ bits 0 1 ++ [.group "enumeratedValues" [
          .group "enumeratedValue" [named "Other", .leaf "isDefault" "true"],
          .group "enumeratedValue" [named "Off", decimal "value" 0]]],
        derivable "field" (some "ON") <| [named "HOLD"] ++ bits 1 1]],
      derivable "register" (some "CH0") [named "CH1", hex "addressOffset" 4]]],
    derivable "peripheral" (some "TIM0") [named "TIM1", hex "baseAddress" 0x40001000],
    derivable "peripheral" (some "TIM1") [named "TIM2", hex "baseAddress" 0x40002000]]]

/-- The device in the document: the third timer derives from the first, and the default stands
last. -/
private def timersRead : Device where
  name := "D"
  peripherals := [
    { name := "TIM0", baseAddress := 0x40000000
      registers := [
        .register {
          name := "CH0", offset := 0, width := 32, access := .readWrite
          resetValue := 0, resetMask := 0xffffffff
          fields := [
            { name := "ON", bitOffset := 0, bitWidth := 1
              enumerations := [
                { name := "Off", value := 0, mask := 1, text := some "0" }, { name := "Other" }] },
            { name := "HOLD", bitOffset := 1, bitWidth := 1, derivedFrom := some "ON" }] },
        .register {
          name := "CH1", offset := 4, width := 32, access := .readWrite
          resetValue := 0, resetMask := 0xffffffff, derivedFrom := some "CH0" }] },
    { name := "TIM1", baseAddress := 0x40001000, derivedFrom := some "TIM0" },
    { name := "TIM2", baseAddress := 0x40002000, derivedFrom := some "TIM0" }]

theorem wellFormed_of_readSvd_timers :
    (readSvd false (Node.document timersTree)).toExcept = .ok timersRead ∧
      timersRead.WellFormed := by
  have hread : (readSvd false (Node.document timersTree)).toExcept = .ok timersRead := by
    have htree : Node.ofText? (Node.document timersTree) = some (timersTree.laid 0) :=
      Node.ofText?_document (by decide +kernel) (by decide +kernel)
    rw [readSvd, htree]
    decide +kernel
  exact ⟨hread, wellFormed_of_readSvd hread⟩

end Example

end Device

end RegisterMap
