import RegisterMap.Proofs.CommonNames
import RegisterMap.Proofs.Numeral.Spelling
import RegisterMap.Proofs.Svd.Extensions
import RegisterMap.Proofs.Svd.Field
import RegisterMap.Proofs.Svd.WellFormed

/-!
# Values that are read

Every text of a description is read without the blanks around it, and every number with no more
bits than its place has. Level by level, what is read is tidy in this sense, also where it is taken
over from a source that was read before (`Device.isTidy_of_readSvd`).
-/

namespace RegisterMap

open Svd Xml Text

/-! ## Texts and numbers -/

namespace Svd

theorem isTrimmed_empty : IsTrimmed "".toList := by decide

theorem isTrimmed_textOf (children : List Node) : IsTrimmed (Node.textOf children).toList := by
  unfold Node.textOf
  split
  · exact isTrimmed_trim _
  · exact isTrimmed_empty

theorem ensures_narrow {bits n : Nat} : Ensures (Numeral.narrow bits n) (· < Bits.limit bits) := by
  unfold Numeral.narrow
  split
  · rename_i hn
    exact .ok hn
  · exact .fail

theorem ensures_number (tag : String) (children : List Node) :
    Ensures (number tag children) (· < Bits.limit 64) := by
  refine Ensures.within fun n hn => ?_
  exact (Numeral.notation?_eq_ok_iff.1 (Numeral.number_eq_ok_iff.1 hn)).1

theorem ensures_number32 (tag : String) (children : List Node) :
    Ensures (number32 tag children) (· < Bits.limit 32) :=
  .seq fun _ => ensures_narrow

theorem ensures_attributeNumber32 (value : String) :
    Ensures (attributeNumber32 value) (· < Bits.limit 32) :=
  .seq fun _ => ensures_narrow

theorem ensures_instructionNumber32 (value : Option String) :
    Ensures (instructionNumber32 value) (· < Bits.limit 32) := by
  unfold instructionNumber32
  split
  · exact ensures_attributeNumber32 _
  · exact .ok (Bits.limit_pos 32)

end Svd

/-! ## Enumerations -/

namespace Enumeration

variable {e f : Enumeration} {text : String} {width : Nat}

/-- The texts of the enumeration are trimmed, and its value is that of its text, if it is not the
default. -/
structure IsTidy (width : Nat) (e : Enumeration) : Prop where
  name : IsTrimmed e.name.toList
  description : IsTrimmed e.description.toList
  value : e.isDefault = true ∨
    ∃ t ∈ e.text, IsTrimmed t.toList ∧ (e.withText t width).toOption = some e

/-- The text that is kept is trimmed, and has the same meaning. -/
theorem withText_eq_ok (h : e.withText text width = .ok f) :
    f.name = e.name ∧ f.description = e.description ∧ f.text = some (trim text) ∧
      e.withText (trim text) width = .ok f := by
  unfold withText at h ⊢
  simp only [trim_trim] at h ⊢
  split at h
  · split at h
    · cases h
      exact ⟨rfl, rfl, rfl, rfl⟩
    · cases h
  · obtain ⟨n, hn, h⟩ := bind_eq_ok.1 h
    cases h
    exact ⟨rfl, rfl, rfl, bind_eq_ok.2 ⟨n, hn, rfl⟩⟩

theorem ensures_withText (hname : IsTrimmed e.name.toList)
    (hdescription : IsTrimmed e.description.toList) (text : String) (width : Nat) :
    Ensures (e.withText text width) (IsTidy width) := by
  intro f hf
  obtain ⟨hsame, hdescribed, htext, hagain⟩ := withText_eq_ok hf
  refine ⟨hsame ▸ hname, hdescribed ▸ hdescription,
    .inr ⟨trim text, htext, isTrimmed_trim text, ?_⟩⟩
  rw [← withText_head, hsame, hdescribed, withText_head, hagain]
  rfl

/-- The texts of the draft are trimmed. -/
structure Draft.IsTidy (d : Draft) : Prop where
  name : IsTrimmed d.enumeration.name.toList
  description : IsTrimmed d.enumeration.description.toList

theorem Draft.IsTidy.step {d : Draft} (h : d.IsTidy) (n : Node) : Ensures (d.step n) IsTidy := by
  cases n with
  | element name attributes children =>
    simp only [Draft.step]
    split
    · exact .ok ⟨isTrimmed_textOf children, h.description⟩
    · exact .ok ⟨h.name, isTrimmed_textOf children⟩
    · exact .ok ⟨h.name, h.description⟩
    · exact .seq fun _ => .ok ⟨h.name, h.description⟩
    · exact ensures_pass h _ _
  | text s => exact .ok h
  | instruction target value => exact .ok h
  | comment => exact .ok h

theorem isTidy_ofSvd (width : Nat) (children : List Node) :
    Ensures (ofSvd width children) (IsTidy width) := by
  have hblank : Draft.IsTidy {} := ⟨isTrimmed_empty, isTrimmed_empty⟩
  unfold ofSvd
  refine (Ensures.foldlM children hblank fun d n hd => hd.step n).bind fun d hd => ?_
  have hdefault : Ensures (.ok d.enumeration.asDefault : Except Failure Enumeration)
      (IsTidy width) := .ok ⟨hd.name, hd.description, .inl rfl⟩
  split
  · split
    · exact hdefault
    · exact ensures_withText hd.name hd.description _ _
  · exact hdefault

end Enumeration

/-! ## Fields -/

namespace Field

/-- The texts of the field are trimmed, and the numbers fit. -/
structure HasTidyHead (f : Field) : Prop where
  name : IsTrimmed f.name.toList
  description : IsTrimmed f.description.toList
  bitOffset : f.bitOffset < Bits.limit 32
  bitWidth : f.bitWidth < Bits.limit 32

/-- So are those of its enumerations. -/
structure HasTidyParts (f : Field) : Prop extends HasTidyHead f where
  enumerations : ∀ e ∈ f.enumerations, e.IsTidy f.bitWidth

/-- Nothing but the last of the enumerations is a default. -/
structure IsTidy (f : Field) : Prop extends HasTidyParts f where
  defaultLast : f.HasDefaultLast

/-- A field that takes the enumerations of another one stays tidy. -/
theorem IsTidy.share {f : Field} (h : f.IsTidy) (source : String) :
    IsTidy { f with derivedFrom := some source, enumerations := [] } where
  name := h.name
  description := h.description
  bitOffset := h.bitOffset
  bitWidth := h.bitWidth
  enumerations := fun _ he => absurd he List.not_mem_nil
  defaultLast := fun _ he => absurd he List.not_mem_nil

theorem ensures_bits {name : String} {low high : Option Nat}
    (hlow : ∀ n ∈ low, n < Bits.limit 32) :
    Ensures (bits name low high) fun b =>
      ∀ range ∈ b, range.1 < Bits.limit 32 ∧ range.2 < Bits.limit 32 := by
  unfold bits
  split
  · exact .ok nofun
  · split
    · refine .ok fun range hrange => ?_
      cases hrange
      have hpos := Bits.limit_pos 32
      exact ⟨hlow _ rfl, by omega⟩
    · exact .fail
  · exact .fail

theorem ensures_bitRange (s : String) : Ensures (bitRange s) fun b => b.1 < Bits.limit 32 := by
  have hnumber (s : List Char) : Ensures (bitNumber s) (· < Bits.limit 32) := by
    unfold bitNumber
    split
    · rename_i n hn
      exact .ok ((Numeral.unsigned_eq_ok_iff (by decide) (Bits.limit_pos 32)).1 hn).1
    · exact .fail
  unfold bitRange
  split
  · exact (hnumber _).bind fun low hlow => .seq fun high => .ok hlow
  · exact .fail

/-- The field of the draft is tidy, and so is the lowest bit that was read for it. -/
structure Draft.IsTidy (d : Draft) : Prop where
  head : d.field.HasTidyHead
  low : ∀ n ∈ d.low, n < Bits.limit 32

theorem Draft.IsTidy.step {d : Draft} (h : d.IsTidy) (n : Node) : Ensures (d.step n) IsTidy := by
  obtain ⟨⟨hname, hdescription, hoffset, hwidth⟩, hlow⟩ := h
  cases n with
  | element name attributes children =>
    simp only [Draft.step]
    split
    · exact .ok ⟨⟨isTrimmed_textOf children, hdescription, hoffset, hwidth⟩, hlow⟩
    · exact .ok ⟨⟨hname, isTrimmed_textOf children, hoffset, hwidth⟩, hlow⟩
    · exact (ensures_number32 _ children).bind fun n hn =>
        .ok ⟨⟨hname, hdescription, hn, hwidth⟩, hlow⟩
    · exact (ensures_number32 _ children).bind fun n hn =>
        .ok ⟨⟨hname, hdescription, hoffset, hn⟩, hlow⟩
    · exact (ensures_number32 _ children).bind fun n hn =>
        .ok ⟨⟨hname, hdescription, hoffset, hwidth⟩, fun m hm => Option.some.inj hm ▸ hn⟩
    · exact .seq fun _ => .ok ⟨⟨hname, hdescription, hoffset, hwidth⟩, hlow⟩
    · exact (ensures_bitRange _).bind fun b hb =>
        .ok ⟨⟨hname, hdescription, hoffset, hwidth⟩, fun m hm => Option.some.inj hm ▸ hb⟩
    · exact .seq fun _ => .ok ⟨⟨hname, hdescription, hoffset, hwidth⟩, hlow⟩
    · exact .ok ⟨⟨hname, hdescription, hoffset, hwidth⟩, hlow⟩
    · exact ensures_pass ⟨⟨hname, hdescription, hoffset, hwidth⟩, hlow⟩ _ _
  | text s => exact .ok ⟨⟨hname, hdescription, hoffset, hwidth⟩, hlow⟩
  | instruction target value =>
    simp only [Draft.step]
    split
    · exact .ok ⟨⟨hname, hdescription, hoffset, hwidth⟩, hlow⟩
    · exact .ok ⟨⟨hname, hdescription, hoffset, hwidth⟩, hlow⟩
  | comment => exact .ok ⟨⟨hname, hdescription, hoffset, hwidth⟩, hlow⟩

theorem hasTidyHead_start {siblings : List Field} (h : ∀ f ∈ siblings, f.HasTidyHead)
    (attributes : List Attribute) : Ensures (start siblings attributes) HasTidyHead := by
  unfold start
  split
  · exact .ok ⟨isTrimmed_empty, isTrimmed_empty, Bits.limit_pos 32, Bits.limit_pos 32⟩
  · split
    · rename_i hsource
      obtain ⟨hname, hdescription, hoffset, hwidth⟩ := h _ (List.mem_of_find?_eq_some hsource)
      exact .ok ⟨hname, hdescription, hoffset, hwidth⟩
    · exact .fail

theorem HasTidyParts.addEnumeration {f : Field} (h : f.HasTidyParts) {e : Enumeration}
    (he : e.IsTidy f.bitWidth) : Ensures (f.addEnumeration e) HasTidyParts := by
  obtain ⟨⟨hname, hdescription, hoffset, hwidth⟩, henumerations⟩ := h
  unfold Field.addEnumeration
  split
  · exact .fail
  · split
    · exact .ok ⟨⟨hname, hdescription, hoffset, hwidth⟩,
        List.forall_mem_append.2 ⟨henumerations, List.forall_mem_singleton.2 he⟩⟩
    · refine .ok ⟨⟨hname, hdescription, hoffset, hwidth⟩, fun x hx => ?_⟩
      rcases List.mem_append.1 hx with hx | hx
      · exact henumerations x ((List.takeWhile_prefix _).subset hx)
      · rcases List.mem_cons.1 hx with rfl | hx
        · exact he
        · exact henumerations x ((List.dropWhile_suffix _).subset hx)

theorem HasTidyParts.addSvd {f : Field} (h : f.HasTidyParts) (nodes : List Node) :
    Ensures (f.addSvd nodes) HasTidyParts := by
  unfold Field.addSvd
  split
  · exact .fail
  · exact .foldlM _ h fun g children hg =>
      (Enumeration.isTidy_ofSvd g.bitWidth children).within.bind fun e he => hg.addEnumeration he

theorem hasTidyParts_ofSvd {siblings : List Field} (h : ∀ f ∈ siblings, f.HasTidyHead)
    (attributes : List Attribute) (children : List Node) :
    Ensures (ofSvd siblings attributes children) HasTidyParts := by
  have hbare : Ensures (start siblings attributes) fun f => f.HasTidyHead ∧ f.enumerations = [] :=
    (hasTidyHead_start h attributes).and (ensures_start siblings attributes)
  have hparts (f : Field) (hf : f.HasTidyHead ∧ f.enumerations = []) :
      Ensures (children.foldlM Draft.step { field := f }) fun d =>
        d.IsTidy ∧ d.field.enumerations = [] :=
    .foldlM (I := fun d : Draft => d.IsTidy ∧ d.field.enumerations = []) children
      ⟨⟨hf.1, nofun⟩, hf.2⟩ fun d n hd =>
        (hd.1.step n).and ((d.ensures_step n).mono fun _ hd' => hd'.trans hd.2)
  unfold ofSvd
  refine hbare.bind fun f hf => (hparts f hf).bind fun d hd => ?_
  obtain ⟨⟨hhead, hlow⟩, hnone⟩ := hd
  refine (ensures_bits hlow).bind fun range hrange => ?_
  have hnodes (f : Field) (hf : f.HasTidyParts) :=
    ensures_addNodes hf (fun nodes => hf.addSvd nodes) d.enumerations
  rcases range with _ | ⟨offset, width⟩
  · exact hnodes d.field ⟨hhead, by simp [hnone]⟩
  · obtain ⟨hoffset, hwidth⟩ := hrange _ rfl
    exact hnodes { d.field with bitOffset := offset, bitWidth := width }
      ⟨⟨hhead.name, hhead.description, hoffset, hwidth⟩, by simp [hnone]⟩

theorem isTidy_ofSvd {siblings : List Field} (h : ∀ f ∈ siblings, f.HasTidyHead)
    (attributes : List Attribute) (children : List Node) :
    Ensures (ofSvd siblings attributes children) IsTidy :=
  ((hasTidyParts_ofSvd h attributes children).and (ensures_ofSvd siblings attributes children)).mono
    fun _ hf => ⟨hf.1, hf.2.defaultLast⟩

end Field

/-! ## Registers -/

namespace Register

/-- The numbers of the register that are not its place fit, and its fields are tidy and do not only
reserve bits. -/
structure IsTidy (r : Register) : Prop where
  defaults : r.defaults.FitsWords
  fields : ∀ f ∈ r.fields, f.IsTidy
  notReserved : ∀ f ∈ r.fields, f.name ≠ "RESERVED"

theorem IsTidy.sameContent {r s : Register} (h : r.IsTidy) (hs : r.SameContent s) : s.IsTidy where
  defaults := by
    unfold Register.defaults
    rw [hs.width_eq, hs.resetValue_eq, hs.resetMask_eq]
    exact h.defaults
  fields := hs.fields_eq ▸ h.fields
  notReserved := hs.fields_eq ▸ h.notReserved

theorem Draft.fitsWords_stepElement {d : Draft} (h : d.register.defaults.FitsWords) (tag : String)
    (children : List Node) :
    Ensures (d.stepElement tag children) fun d => d.register.defaults.FitsWords := by
  obtain ⟨hwidth, hvalue, hmask⟩ := h
  unfold stepElement
  split
  case h_1 | h_2 | h_3 => exact .ok ⟨hwidth, hvalue, hmask⟩
  case h_4 | h_6 => exact .seq fun _ => .ok ⟨hwidth, hvalue, hmask⟩
  case h_5 =>
    exact (ensures_number32 _ children).bind fun n hn => .ok ⟨hn, hvalue, hmask⟩
  case h_7 => exact (ensures_number _ children).bind fun n hn => .ok ⟨hwidth, hn, hmask⟩
  case h_8 => exact (ensures_number _ children).bind fun n hn => .ok ⟨hwidth, hvalue, hn⟩
  case h_9 =>
    split
    · exact .ok ⟨hwidth, hvalue, hmask⟩
    · exact ensures_pass (P := fun d : Draft => d.register.defaults.FitsWords)
        ⟨hwidth, hvalue, hmask⟩ _ _
  case h_10 =>
    exact ensures_pass (P := fun d : Draft => d.register.defaults.FitsWords)
      ⟨hwidth, hvalue, hmask⟩ _ _

theorem Draft.fitsWords_step {d : Draft} (h : d.register.defaults.FitsWords) (n : Node) :
    Ensures (d.step n) fun d => d.register.defaults.FitsWords := by
  cases n with
  | element name attributes children =>
    refine .seq fun dim => ?_
    split
    · exact .ok h
    · exact fitsWords_stepElement h _ _
  | text s => exact .ok h
  | instruction target value => exact .ok h
  | comment => exact .ok h

theorem IsTidy.addSvd {r : Register} (h : r.IsTidy) (n : Node) : Ensures (r.addSvd n) IsTidy := by
  cases n with
  | element name attributes children =>
    rw [Register.addSvd]
    split
    · refine (Field.isTidy_ofSvd (fun f hf => (h.fields f hf).toHasTidyHead) attributes
        children).within.bind fun f hf => .ok ?_
      split
      · exact h
      · rename_i hname
        exact ⟨h.defaults, List.forall_mem_append.2 ⟨h.fields, List.forall_mem_singleton.2 hf⟩,
          List.forall_mem_append.2 ⟨h.notReserved,
            List.forall_mem_singleton.2 fun e => hname (beq_iff_eq.2 e)⟩⟩
    · exact ensures_pass h _ _
  | text s => exact .ok h
  | instruction target value => exact .ok h
  | comment => exact .ok h

end Register

namespace Element

/-- Every register in the elements is tidy. -/
def AreTidy (es : List Element) : Prop := ∀ r ∈ registersAll es, r.IsTidy

theorem AreTidy.descends {es fs : List Element} (h : AreTidy es) (hfs : Descends es fs) :
    AreTidy fs := by
  intro s hs
  obtain ⟨r, hr, hsame⟩ := hfs s hs
  exact (h r hr).sameContent hsame

theorem areTidy_nil : AreTidy [] := fun _ h => absurd h List.not_mem_nil

end Element

namespace Register

theorem fitsWords_start {scopes : List (List Element)} {inForce : Defaults}
    (hscopes : ∀ es ∈ scopes, Element.AreTidy es) (hforce : inForce.FitsWords)
    (attributes : List Attribute) :
    Ensures (start scopes inForce attributes) fun r => r.defaults.FitsWords := by
  unfold start
  split
  · exact .ok hforce
  · split
    · rename_i hsource
      obtain ⟨es, hes, hfound⟩ := List.exists_of_findSome?_eq_some hsource
      exact .ok (hscopes es hes _ (Element.mem_registersAll_of_findIn? es hfound)).defaults
    · exact .fail

theorem isTidy_ofSvd {scopes : List (List Element)} {inForce : Defaults}
    (hscopes : ∀ es ∈ scopes, Element.AreTidy es) (hforce : inForce.FitsWords)
    (attributes : List Attribute) (children : List Node) :
    Ensures (ofSvd scopes inForce attributes children) IsTidy := by
  have hbare := (fitsWords_start hscopes hforce attributes).and
    (ensures_start scopes inForce attributes)
  have hparts (r : Register) (hr : r.defaults.FitsWords ∧ r.fields = []) :
      Ensures (children.foldlM Draft.step { register := r }) fun d =>
        d.register.defaults.FitsWords ∧ d.IsOpen :=
    .foldlM (I := fun d : Draft => d.register.defaults.FitsWords ∧ d.IsOpen) children
      ⟨hr.1, hr.2, fun _ => rfl⟩ fun d n hd =>
        (Draft.fitsWords_step hd.1 n).and (Draft.ensures_step hd.2 n)
  have hfields (d : Draft) (hd : d.register.defaults.FitsWords ∧ d.IsOpen) (name : String)
      (dim : Option Dim) :
      Ensures ((d.fields.getD []).foldlM addSvd { d.register with name, dim }) IsTidy :=
    .foldlM _ ⟨hd.1, by simp [hd.2.fields], by simp [hd.2.fields]⟩ fun r n hr => hr.addSvd n
  unfold ofSvd
  refine hbare.bind fun r hr => (hparts r hr).bind fun d hd => ?_
  dsimp only
  split
  · split
    · exact .seq fun name => .seq fun dim => hfields d hd name dim
    · exact .seq fun name => .seq fun dim => hfields d hd name dim
  · exact .seq fun name => .seq fun dim => hfields d hd name dim

end Register

namespace Element

mutual

theorem areTidy_ofSvd? (parent : String) {scopes : List (List Element)} {inForce : Defaults}
    (hscopes : ∀ es ∈ scopes, AreTidy es) (hforce : inForce.FitsWords) :
    (n : Node) → Ensures (ofSvd? parent scopes inForce n) fun e => AreTidy e.toList
  | .element name attributes children => by
    rw [ofSvd?]
    split
    · refine (Register.isTidy_ofSvd hscopes hforce attributes children).bind fun r hr => .ok ?_
      intro s hs
      cases List.mem_singleton.1 hs
      exact hr
    · refine .seq fun c => ?_
      refine (Ensures.within (areTidy_listOfSvd "cluster" hscopes hforce areTidy_nil
        children)).bind fun es hes => .ok ?_
      intro s hs
      exact hes s (by simpa [registersAll, registers] using hs)
    · split
      · exact .ok areTidy_nil
      · exact ensures_pass (P := fun e : Option Element => AreTidy e.toList)
          (s := none) areTidy_nil _ _
  | .text s => by
    simp only [ofSvd?]
    exact .ok areTidy_nil
  | .instruction target value => by
    simp only [ofSvd?]
    exact .ok areTidy_nil
  | .comment => by
    simp only [ofSvd?]
    exact .ok areTidy_nil

theorem areTidy_listOfSvd (parent : String) {outer : List (List Element)} {inForce : Defaults}
    {done : List Element} (houter : ∀ es ∈ outer, AreTidy es) (hforce : inForce.FitsWords)
    (hdone : AreTidy done) :
    (ns : List Node) → Ensures (listOfSvd parent outer inForce done ns) AreTidy
  | [] => by
    rw [listOfSvd]
    exact .ok hdone
  | n :: ns => by
    rw [listOfSvd]
    refine (areTidy_ofSvd? parent (List.forall_mem_cons.2 ⟨hdone, houter⟩) hforce n).bind
      fun e he => ?_
    have hmore : AreTidy (done ++ e.toList) := by
      intro r hr
      rw [registersAll_append] at hr
      exact (List.mem_append.1 hr).elim (hdone r) (he r)
    exact areTidy_listOfSvd parent houter hforce hmore ns

end

end Element

/-! ## Peripherals -/

namespace Interrupt

/-- The texts of the interrupt are trimmed, and it has a name. -/
structure HasTidyTexts (i : Interrupt) : Prop where
  named : i.name ≠ ""
  name : IsTrimmed i.name.toList
  description : IsTrimmed i.description.toList

/-- Its number fits, too. -/
structure IsTidy (i : Interrupt) : Prop extends HasTidyTexts i where
  low : -(Bits.limit 31 : Int) ≤ i.index
  high : i.index < Bits.limit 31

theorem HasTidyTexts.absorb {i j : Interrupt} (hi : i.HasTidyTexts) (hj : j.HasTidyTexts) :
    (i.absorb j).HasTidyTexts where
  named := hi.named
  name := hi.name
  description := by
    unfold Interrupt.absorb
    dsimp only
    split
    · exact hj.description
    · exact hi.description

theorem HasTidyTexts.ownedBy {i : Interrupt} (h : i.HasTidyTexts) (p : String) :
    (i.ownedBy p).HasTidyTexts := by
  unfold Interrupt.ownedBy
  split
  · exact h
  · exact ⟨h.named, h.name, h.description⟩

/-- The texts of the draft are trimmed, and the number fits. -/
structure Draft.IsTidy (d : Draft) : Prop where
  name : IsTrimmed d.name.toList
  description : IsTrimmed d.description.toList
  index : ∀ i ∈ d.index, -(Bits.limit 31 : Int) ≤ i ∧ i < Bits.limit 31

theorem Draft.IsTidy.step {d : Draft} (h : d.IsTidy) (n : Node) : Ensures (d.step n) IsTidy := by
  cases n with
  | element name attributes children =>
    simp only [Draft.step]
    split
    · exact .ok ⟨isTrimmed_textOf children, h.description, h.index⟩
    · exact .ok ⟨h.name, isTrimmed_textOf children, h.index⟩
    · refine .seq fun n => Ensures.bind (P := fun i : Int => -(Bits.limit 31 : Int) ≤ i ∧
        i < Bits.limit 31) (fun i hi => ?_) fun i hi => ?_
      · obtain ⟨hn, rfl⟩ := Numeral.narrowSigned_eq_ok_iff.1 hi
        exact hn
      · exact .ok ⟨h.name, h.description, fun j hj => Option.some.inj hj ▸ hi⟩
    · exact ensures_pass h _ _
  | text s => exact .ok h
  | instruction target value => exact .ok h
  | comment => exact .ok h

theorem isTidy_ofSvd {missing : Option Int}
    (hmissing : ∀ n ∈ missing, -(Bits.limit 31 : Int) ≤ n ∧ n < Bits.limit 31)
    (children : List Node) : Ensures (ofSvd missing children) IsTidy := by
  have hblank : Draft.IsTidy {} := ⟨isTrimmed_empty, isTrimmed_empty, nofun⟩
  unfold ofSvd
  refine (Ensures.foldlM children hblank fun d n hd => hd.step n).bind fun d hd => ?_
  dsimp only
  by_cases hname : d.name.isEmpty = true
  · rw [if_pos hname]
    exact .fail_bind
  · rw [if_neg hname]
    split
    · rename_i index hindex
      have hnumber : -(Bits.limit 31 : Int) ≤ index ∧ index < Bits.limit 31 := by
        rcases Option.or_eq_some_iff.1 hindex with hindex | ⟨-, hindex⟩
        · exact hd.index index hindex
        · exact hmissing index hindex
      exact .ok ⟨⟨fun h => hname (String.isEmpty_iff.2 h), hd.name, hd.description⟩, hnumber.1,
        hnumber.2⟩
    · exact .fail

end Interrupt

namespace Peripheral

/-- The texts of the peripheral are trimmed, but what is put before its register names may not be,
the numbers fit, and what it has is tidy. -/
structure IsTidy (common : Bool) (p : Peripheral) : Prop where
  name : IsTrimmed p.name.toList
  common : nameFor common p.name = p.name
  description : IsTrimmed p.description.toList
  groupName : ∀ t ∈ p.groupName, IsTrimmed t.toList
  appendToName : ∀ t ∈ p.appendToName, IsTrimmed t.toList
  headerStructName : ∀ t ∈ p.headerStructName, IsTrimmed t.toList
  baseAddress : p.baseAddress < Bits.limit 64
  defaults : p.defaults.FitsWords
  preferredAccessWidth : p.preferredAccessWidth < Bits.limit 32
  forcedBlockMultiple : p.forcedBlockMultiple < Bits.limit 32
  interrupts : ∀ i ∈ p.interrupts, i.IsTidy
  registers : Element.AreTidy p.registers

variable {common : Bool} {d : Device}

theorem nameFor_nameFor (common : Bool) (name : String) :
    nameFor common (nameFor common name) = nameFor common name := by
  cases common with
  | false => rfl
  | true => exact commonName_commonName name

theorem isTrimmed_nameFor (common : Bool) {name : String} (h : IsTrimmed name.toList) :
    IsTrimmed (nameFor common name).toList := by
  cases common with
  | false => exact h
  | true => exact isTrimmed_commonName h

theorem isTidy_start (hd : ∀ p ∈ d.peripherals, p.IsTidy common) (hforce : d.defaults.FitsWords)
    (attributes : List Attribute) : Ensures (start common d attributes) (IsTidy common) := by
  have hunnamed : nameFor common "" = "" := by
    cases common with
    | false => rfl
    | true => decide +kernel
  unfold start
  split
  · exact .ok {
      name := isTrimmed_empty
      common := hunnamed
      description := isTrimmed_empty
      groupName := nofun
      appendToName := nofun
      headerStructName := nofun
      baseAddress := Bits.limit_pos 64
      defaults := hforce
      preferredAccessWidth := Bits.limit_pos 32
      forcedBlockMultiple := Bits.limit_pos 32
      interrupts := nofun
      registers := Element.areTidy_nil }
  · split
    · rename_i p hfound
      have hp : p ∈ d.peripherals := by
        rcases Option.or_eq_some_iff.1 hfound with hfound | ⟨-, hfound⟩
        · exact List.mem_of_find?_eq_some hfound
        · exact List.mem_of_find?_eq_some hfound
      refine Ensures.bind (P := (IsTidy common ·)) (fun q hq => hd q (d.mem_of_resolve hp hq))
        fun q hq => .ok ?_
      exact { hq with
        name := isTrimmed_empty
        common := hunnamed
        preferredAccessWidth := Bits.limit_pos 32
        forcedBlockMultiple := Bits.limit_pos 32
        interrupts := fun _ h => absurd h List.not_mem_nil
        registers := Element.areTidy_nil }
    · exact .fail

theorem IsTidy.hinted {p : Peripheral} (h : p.IsTidy common) (attributes : List Attribute) :
    Ensures (p.hinted attributes) (IsTidy common) := by
  unfold Peripheral.hinted
  refine Ensures.bind (P := (· < Bits.limit 32)) ?_ fun n hn =>
    Ensures.bind (P := (· < Bits.limit 32)) ?_ fun m hm =>
      .ok { h with preferredAccessWidth := hn, forcedBlockMultiple := hm }
  · dsimp only
    split
    · exact ensures_attributeNumber32 _
    · exact .ok h.preferredAccessWidth
  · dsimp only
    split
    · exact ensures_attributeNumber32 _
    · exact .ok h.forcedBlockMultiple

theorem Draft.isTidy_step {d : Draft} (h : d.peripheral.IsTidy common) (n : Node) :
    Ensures (d.step common n) fun d => d.peripheral.IsTidy common := by
  obtain ⟨hwidth, hvalue, hmask⟩ := h.defaults
  cases n with
  | element name attributes children =>
    rw [step]
    dsimp only
    have htext := isTrimmed_textOf children
    have hone (t : String) (ht : t ∈ some (Node.textOf children)) : IsTrimmed t.toList :=
      Option.some.inj ht ▸ htext
    split
    case h_1 =>
      exact .ok { h with
        name := isTrimmed_nameFor common htext
        common := nameFor_nameFor common _ }
    case h_2 => exact .ok h
    case h_3 => exact .ok { h with description := htext }
    case h_4 => exact .ok { h with groupName := hone }
    case h_5 => exact .ok { h with }
    case h_6 => exact .ok { h with appendToName := hone }
    case h_7 => exact .ok { h with headerStructName := hone }
    case h_8 => exact (ensures_number _ children).bind fun n hn => .ok { h with baseAddress := hn }
    case h_9 =>
      have hnone : ∀ n ∈ (none : Option Int), -(Bits.limit 31 : Int) ≤ n ∧ n < Bits.limit 31 :=
        fun n hn => absurd hn (Option.not_mem_none n)
      exact (Interrupt.isTidy_ofSvd hnone children).bind fun i hi => .ok { h with
        interrupts := List.forall_mem_append.2 ⟨h.interrupts, List.forall_mem_singleton.2 hi⟩ }
    case h_10 =>
      exact (ensures_number32 _ children).bind fun n hn =>
        .ok { h with defaults := ⟨hn, hvalue, hmask⟩ }
    case h_11 => exact .seq fun _ => .ok { h with defaults := ⟨hwidth, hvalue, hmask⟩ }
    case h_12 =>
      exact (ensures_number _ children).bind fun n hn =>
        .ok { h with defaults := ⟨hwidth, hn, hmask⟩ }
    case h_13 =>
      exact (ensures_number _ children).bind fun n hn =>
        .ok { h with defaults := ⟨hwidth, hvalue, hn⟩ }
    case h_14 =>
      split
      · exact .ok h
      · exact .seq fun b => .ok { h with }
    case h_15 =>
      split
      · exact .fail
      · exact .ok h
    case h_16 => exact ensures_pass (P := fun d : Draft => d.peripheral.IsTidy common) h _ _
  | text s => exact .ok h
  | instruction target value =>
    show Ensures (d.instruct target value) _
    unfold instruct
    split
    · exact (ensures_instructionNumber32 value).bind fun n hn =>
        .ok { h with preferredAccessWidth := hn }
    · exact (ensures_instructionNumber32 value).bind fun n hn =>
        .ok { h with forcedBlockMultiple := hn }
    · exact .ok h
  | comment => exact .ok h

theorem isTidy_ofSvd (hd : ∀ p ∈ d.peripherals, p.IsTidy common) (hforce : d.defaults.FitsWords)
    (attributes : List Attribute) (children : List Node) :
    Ensures (ofSvd common d attributes children) (IsTidy common) := by
  have hparts (p : Peripheral) (hp : p.IsTidy common) :
      Ensures (children.foldlM (Draft.step common) { peripheral := p })
        fun d => d.peripheral.IsTidy common :=
    .foldlM (I := fun d : Draft => d.peripheral.IsTidy common) children hp
      fun d n hd => Draft.isTidy_step hd n
  unfold ofSvd
  refine (isTidy_start hd hforce attributes).bind fun p hp => (hp.hinted attributes).bind
    fun p hp => (hparts p hp).bind fun d hd => ?_
  dsimp only
  split
  · exact .fail_bind
  · split
    · exact .ok hd
    · exact (Ensures.within (Element.areTidy_listOfSvd _ (fun _ h => absurd h List.not_mem_nil)
        hd.defaults Element.areTidy_nil _)).bind fun es hes => .ok { hd with registers := hes }

end Peripheral

/-! ## Devices -/

/-- The texts of the processor are trimmed, and its number fits. -/
structure Cpu.IsTidy (c : Cpu) : Prop where
  name : IsTrimmed c.name.toList
  revision : IsTrimmed c.revision.toList
  endian : IsTrimmed c.endian.toList
  nvicPrioBits : c.nvicPrioBits < Bits.limit 32

theorem Cpu.IsTidy.stepSvd {c : Cpu} (h : c.IsTidy) (n : Node) :
    Ensures (c.stepSvd n) IsTidy := by
  cases n with
  | element name attributes children =>
    simp only [Cpu.stepSvd]
    have htext := isTrimmed_textOf children
    split
    case h_1 => exact .ok { h with name := htext }
    case h_2 => exact .ok { h with revision := htext }
    case h_3 => exact .ok { h with endian := htext }
    case h_4 | h_5 | h_6 | h_8 => exact .seq fun _ => .ok { h with }
    case h_7 =>
      exact (ensures_number32 _ children).bind fun n hn => .ok { h with nvicPrioBits := hn }
    case h_9 => exact ensures_pass h _ _
  | text s => exact .ok h
  | instruction target value => exact .ok h
  | comment => exact .ok h

/-- The texts of the entries are trimmed. -/
def VectorTable.HasTidyTexts (t : VectorTable) : Prop := ∀ e ∈ t.entries, e.2.HasTidyTexts

theorem VectorTable.hasTidyTexts_empty : empty.HasTidyTexts :=
  fun _ he => absurd he List.not_mem_nil

theorem VectorTable.HasTidyTexts.addAll {t u : VectorTable} {is : List Interrupt}
    (ht : t.HasTidyTexts) (his : ∀ i ∈ is, i.HasTidyTexts)
    (hu : (t.addAll is).toExcept = .ok u) : u.HasTidyTexts :=
  forall_entries_addAll (fun _ _ => Interrupt.HasTidyTexts.absorb) ht his hu

namespace Device

/-- The texts of the device and of its vectors are trimmed, the numbers of the device fit, and its
peripherals are tidy. -/
structure IsTidy (common : Bool) (d : Device) : Prop where
  name : IsTrimmed d.name.toList
  version : IsTrimmed d.version.toList
  description : IsTrimmed d.description.toList
  equivalentDevices : ∀ s ∈ d.equivalentDevices, s ≠ "" ∧ IsTrimmed s.toList ∧ ',' ∉ s.toList
  addressUnitBits : d.addressUnitBits < Bits.limit 32
  defaults : d.defaults.FitsWords
  cpu : ∀ c ∈ d.cpu, c.IsTidy
  peripherals : ∀ p ∈ d.peripherals, p.IsTidy common
  vectors : ∀ t ∈ d.vectorTable, t.HasTidyTexts

variable {common : Bool} {d : Device}

theorem of_mem_deviceList {s t : String} (h : s ∈ deviceList t) :
    s ≠ "" ∧ IsTrimmed s.toList ∧ ',' ∉ s.toList := by
  obtain ⟨hmem, hne⟩ := List.mem_filter.1 h
  obtain ⟨part, hpart, rfl⟩ := List.mem_map.1 hmem
  refine ⟨by simpa using hne, isTrimmed_trim _, fun hcomma => ?_⟩
  obtain ⟨-, before, after, hs, -⟩ := trim_eq_iff.1 (rfl : trim (.ofList part) = _)
  rw [String.toList_ofList] at hs
  refine not_mem_of_mem_parts part hpart ?_
  rw [hs]
  exact List.mem_append_left _ (List.mem_append_right _ hcomma)

theorem IsTidy.addPeripheral (h : d.IsTidy common) {p : Peripheral} (hp : p.IsTidy common) :
    Ensures (d.addPeripheral p) (IsTidy common) := by
  have happend : IsTidy common { d with peripherals := d.peripherals ++ [p] } := { h with
    peripherals := List.forall_mem_append.2 ⟨h.peripherals, List.forall_mem_singleton.2 hp⟩ }
  unfold Device.addPeripheral
  dsimp only
  split
  · exact .fail_bind
  · split
    · refine .seq fun _ => ?_
      split
      · exact .fail_bind
      · exact .ok happend
    · exact .ok happend

theorem IsTidy.stepPeripheral (h : d.IsTidy common) (n : Node) :
    Ensures (d.stepPeripheral common n) (IsTidy common) := by
  cases n with
  | element name attributes children =>
    rw [Device.stepPeripheral]
    split
    · exact (Peripheral.isTidy_ofSvd h.peripherals h.defaults attributes children).bind
        fun p hp => h.addPeripheral hp
    · exact ensures_pass h _ _
  | text s => exact .ok h
  | instruction target value => exact .ok h
  | comment => exact .ok h

theorem IsTidy.stepPart (h : d.IsTidy common) (tag : String) (children : List Node) :
    Ensures (d.stepPart common tag children) (IsTidy common) := by
  obtain ⟨hwidth, hvalue, hmask⟩ := h.defaults
  have htext := isTrimmed_textOf children
  unfold Device.stepPart
  split
  case h_1 => exact .ok { h with name := htext }
  case h_2 => exact .ok { h with version := htext }
  case h_3 => exact .ok { h with description := htext }
  case h_4 =>
    exact (ensures_number32 _ children).bind fun n hn => .ok { h with addressUnitBits := hn }
  case h_5 | h_6 =>
    exact (ensures_number32 _ children).bind fun n hn =>
      .ok { h with defaults := ⟨hn, hvalue, hmask⟩ }
  case h_7 => exact .seq fun _ => .ok { h with defaults := ⟨hwidth, hvalue, hmask⟩ }
  case h_8 =>
    exact (ensures_number _ children).bind fun n hn =>
      .ok { h with defaults := ⟨hwidth, hn, hmask⟩ }
  case h_9 =>
    exact (ensures_number _ children).bind fun n hn =>
      .ok { h with defaults := ⟨hwidth, hvalue, hn⟩ }
  case h_10 =>
    have hblank : Cpu.IsTidy {} :=
      ⟨isTrimmed_empty, isTrimmed_empty, isTrimmed_empty, by decide⟩
    refine (Ensures.foldlM children hblank fun c n hc => hc.stepSvd n).bind fun c hc => .ok ?_
    exact { h with cpu := fun c' hc' => Option.some.inj hc' ▸ hc }
  case h_11 => exact .foldlM children h fun d n hd => hd.stepPeripheral n
  case h_12 => exact ensures_pass h _ _

theorem IsTidy.addVector (h : d.IsTidy common) {i : Interrupt} (hi : i.HasTidyTexts) :
    Ensures (d.addVector i) (IsTidy common) := by
  have htable : (d.vectorTable.getD .empty).HasTidyTexts := by
    cases ht : d.vectorTable with
    | none => exact VectorTable.hasTidyTexts_empty
    | some t => exact h.vectors t ht
  have hadded : Ensures ((d.vectorTable.getD .empty).add i) VectorTable.HasTidyTexts := by
    intro t ht
    have hall : ((d.vectorTable.getD .empty).addAll [i]).toExcept = .ok t := by
      rw [VectorTable.toExcept_addAll_cons, ht]
      rfl
    exact htable.addAll (List.forall_mem_singleton.2 hi) hall
  exact hadded.bind fun t ht => .ok { h with vectors := fun u hu => Option.some.inj hu ▸ ht }

theorem IsTidy.extend (h : d.IsTidy common) {i : Interrupt} (hi : i.HasTidyTexts) :
    Ensures (d.extend i).toExcept (IsTidy common) := by
  unfold Device.extend
  split
  · exact .ok h
  · rw [Outcome.toExcept_ofExcept]
    exact h.addVector hi

theorem ensures_numbered (last : Int) (children : List Node) :
    Ensures (numbered last children) Interrupt.HasTidyTexts := by
  have hautomatic : ∀ n ∈ some automaticNumber,
      -(Bits.limit 31 : Int) ≤ n ∧ n < Bits.limit 31 := by decide
  refine (Interrupt.isTidy_ofSvd hautomatic children).bind fun i hi => ?_
  split
  · exact .ok ⟨hi.named, hi.name, hi.description⟩
  · split
    · exact .fail
    · exact .ok hi.toHasTidyTexts

theorem IsTidy.addNumbered (h : d.IsTidy common) (last : Int) (elements : List (List Node)) :
    Ensures (d.addNumbered last elements).toExcept (IsTidy common) := by
  induction elements generalizing last d with
  | nil => exact .ok h
  | cons children rest ih =>
    rw [Device.addNumbered]
    split
    · exact .of_failure rfl
    · rename_i i hi
      rw [Outcome.toExcept_andThen]
      exact (h.extend (ensures_numbered last children i hi)).bind fun _ hd => ih hd i.index

theorem IsTidy.stepExtension (h : d.IsTidy common) (n : Node) :
    Ensures (d.stepExtension n).toExcept (IsTidy common) := by
  cases n with
  | element name attributes children =>
    rw [Device.stepExtension]
    split
    · exact .ok { h with equivalentDevices := fun s hs => of_mem_deviceList hs }
    · exact h.addNumbered _ _
    · exact .ok h
  | text s => exact .ok h
  | instruction target value => exact .ok h
  | comment => exact .ok h

theorem IsTidy.stepSvd (h : d.IsTidy common) (n : Node) :
    Ensures (d.stepSvd common n).toExcept (IsTidy common) := by
  cases n with
  | element name attributes children =>
    rw [Device.stepSvd]
    split
    · exact .foldl_andThen children h fun d n hd => hd.stepExtension n
    · rw [Outcome.toExcept_ofExcept]
      exact h.stepPart _ _
  | text s => exact .ok h
  | instruction target value => exact .ok h
  | comment => exact .ok h

/-- A device that is read has a name, and is tidy. -/
theorem isTidy_ofSvd (common : Bool) (root : Node) :
    Ensures (ofSvd common root).toExcept fun d => d.name ≠ "" ∧ d.IsTidy common := by
  have hblank : IsTidy common { name := "" } := {
    name := isTrimmed_empty
    version := by decide
    description := isTrimmed_empty
    equivalentDevices := nofun
    addressUnitBits := by decide
    defaults := by decide
    cpu := nofun
    peripherals := nofun
    vectors := nofun }
  have hcheck (d : Device) (h : d.IsTidy common) : Ensures (Outcome.check d d.checkRead).toExcept
      fun e => e.name ≠ "" ∧ e.IsTidy common := by
    intro e he
    obtain ⟨hread, rfl⟩ := Outcome.check_ok he
    refine ⟨fun hname => ?_, h⟩
    unfold checkRead at hread
    rw [if_pos (String.isEmpty_iff.2 hname)] at hread
    cases hread
  cases root with
  | element name attributes children =>
    simp only [ofSvd]
    split
    · rw [Outcome.toExcept_andThen]
      exact (Ensures.foldl_andThen children hblank fun d n hd => hd.stepSvd n).bind hcheck
    · exact .of_failure rfl
  | text s => exact .of_failure rfl
  | instruction target value => exact .of_failure rfl
  | comment => exact .of_failure rfl

/-- What is read from a text has a name, is tidy and is settled. -/
theorem isTidy_of_readSvd {text : String} (h : (readSvd common text).toExcept = .ok d) :
    d.name ≠ "" ∧ d.IsTidy common ∧ d.IsSettled := by
  unfold readSvd at h
  split at h
  · rename_i root _
    obtain ⟨hnamed, htidy⟩ := isTidy_ofSvd common root d h
    exact ⟨hnamed, htidy, (ensures_ofSvd common root d h).1⟩
  · cases h

end Device

end RegisterMap
