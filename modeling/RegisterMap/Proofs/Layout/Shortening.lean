import Mathlib
import RegisterMap.Proofs.Layout.Declarable
import RegisterMap.Proofs.Layout.Leaves
import RegisterMap.Proofs.Layout.Relabelling
import RegisterMap.Proofs.Placeholder
import RegisterMap.Proofs.Prefix

/-!
# Layouts under shorter names

Taking the common part of the names of a peripheral leaves the layout as it is, but for the names,
exactly when every array is still declared the way it was (`Register.KeepsForm`,
`Workpiece.layout_extractPrefix`). This is so when no array loses a placeholder to the common part.
`Workpiece.extractPrefix_dac` is about a peripheral whose arrays do, and can no longer be laid out.
-/

namespace RegisterMap

/-- The register without the first `n` characters of its name. -/
def Register.shortened (n : Nat) (r : Register) : Register :=
  { r with name := .ofList (r.name.toList.drop n) }

/-- The head of a cluster without the first `n` characters of its name. -/
def Cluster.shortened (n : Nat) (c : Cluster) : Cluster :=
  { c with name := .ofList (c.name.toList.drop n) }

/-- The element without the first `n` characters of its own name. -/
def Element.shortened (n : Nat) : Element → Element
  | register r => register (r.shortened n)
  | cluster c es => cluster (c.shortened n) es

/-! ## Names -/

namespace Element

variable {n : Nat} {e f : Element}

theorem withName_eq_shortened (n : Nat) (e : Element) :
    e.withName (.ofList (e.name.toList.drop n)) = e.shortened n := by
  cases e <;> rfl

@[simp] theorem offset_shortened : (e.shortened n).offset = e.offset := by cases e <;> rfl

@[simp] theorem totalSize_shortened : (e.shortened n).totalSize = e.totalSize := by
  cases e <;> rfl

@[simp] theorem flags_shortened : (e.shortened n).flags = e.flags := by cases e <;> rfl

@[simp] theorem name_shortened : (e.shortened n).name = .ofList (e.name.toList.drop n) := by
  cases e <;> rfl

theorem visible_map_shortened (n : Nat) (es : List Element) :
    visible (es.map (shortened n)) = (visible es).map (shortened n) := by
  unfold visible
  rw [List.filter_map]
  simp [Function.comp_def]

/-- Elements whose names share their beginning keep their order without it. -/
theorem precedes_shortened {common : List Char} (he : common <+: e.name.toList)
    (hf : common <+: f.name.toList) :
    (e.shortened common.length).precedes (f.shortened common.length) = e.precedes f := by
  have hname {e : Element} (he : common <+: e.name.toList) :
      e.name = .ofList (common ++ e.name.toList.drop common.length) := by
    rw [List.prefix_iff_eq_append.1 he, String.ofList_toList]
  unfold precedes order
  conv_rhs => rw [hname he, hname hf, Peripheral.compare_append]
  simp only [offset_shortened, totalSize_shortened, name_shortened]

end Element

/-- Registers whose names share their beginning are the same if they are without it. -/
theorem Register.eq_of_shortened_eq {r s : Register} {common : List Char}
    (hr : common <+: r.name.toList) (hs : common <+: s.name.toList)
    (h : r.shortened common.length = s.shortened common.length) : r = s := by
  obtain ⟨rname, _⟩ := r
  obtain ⟨sname, _⟩ := s
  simp only [shortened, Register.mk.injEq, String.ofList_inj] at h
  have hname : rname = sname := by
    rw [← String.toList_inj, ← List.prefix_iff_eq_append.1 hr, ← List.prefix_iff_eq_append.1 hs]
    exact congrArg (common ++ ·) h.1
  simp only [hname, h]

/-! ## Declarations -/

namespace Decl

mutual

/-- The declaration without the first `n` characters of the names of its registers and clusters;
members of clusters keep theirs. -/
def shortened (n : Nat) : Decl → Decl
  | register r offset => register (r.shortened n) offset
  | element r i offset => element (r.shortened n) i offset
  | cluster c offset size ds => cluster (c.shortened n) offset size ds
  | union offset size ds => union offset size (shortenedAll n ds)
  | struct offset size ds => struct offset size (shortenedAll n ds)
  | reserved offset size => reserved offset size

/-- The declarations without the first `n` characters of their names. -/
def shortenedAll (n : Nat) : List Decl → List Decl
  | [] => []
  | d :: ds => d.shortened n :: shortenedAll n ds

end

theorem shortenedAll_eq_map (n : Nat) (ds : List Decl) :
    shortenedAll n ds = ds.map (shortened n) := by
  induction ds with
  | nil => rfl
  | cons d ds ih => rw [shortenedAll, ih, List.map_cons]

theorem isRelabelling_shortened (n : Nat) : IsRelabelling (shortened n) where
  reserved_eq _ _ := rfl
  union_eq offset size ds := by rw [shortened, shortenedAll_eq_map]
  struct_eq offset size ds := by rw [shortened, shortenedAll_eq_map]

mutual

theorem leaves_shortened (n : Nat) : (d : Decl) →
    (d.shortened n).leaves = d.leaves.map (shortened n)
  | register _ _ => rfl
  | element _ _ _ => rfl
  | cluster _ _ _ _ => rfl
  | union _ _ ds => by rw [shortened, leaves, leaves, leavesAll_shortenedAll n ds]
  | struct _ _ ds => by rw [shortened, leaves, leaves, leavesAll_shortenedAll n ds]
  | reserved _ _ => rfl

theorem leavesAll_shortenedAll (n : Nat) : (ds : List Decl) →
    leavesAll (shortenedAll n ds) = (leavesAll ds).map (shortened n)
  | [] => rfl
  | d :: ds => by
    rw [shortenedAll, leavesAll, leavesAll, List.map_append, leaves_shortened n d,
      leavesAll_shortenedAll n ds]

end

/-- Among registers whose names share their beginning, one is found again without it. -/
theorem register_mem_map_shortened_iff {common : List Char} {ls : List Decl} {r : Register}
    (hls : ∀ s, register s s.offset ∈ ls → common <+: s.name.toList)
    (hr : common <+: r.name.toList) :
    register (r.shortened common.length) r.offset ∈ ls.map (shortened common.length) ↔
      register r r.offset ∈ ls := by
  rw [List.mem_map]
  constructor
  · rintro ⟨leaf, hmem, hleaf⟩
    cases leaf with
    | register s offset =>
      simp only [shortened, register.injEq] at hleaf
      obtain ⟨hs, hoffset⟩ := hleaf
      have hoffset : offset = s.offset := by
        rw [hoffset, ← show (s.shortened common.length).offset = s.offset from rfl, hs]
        rfl
      subst hoffset
      rw [← Register.eq_of_shortened_eq (hls s hmem) hr hs]
      exact hmem
    | _ => simp [shortened] at hleaf
  · intro hmem
    exact ⟨_, hmem, rfl⟩

end Decl

/-! ## Arrays -/

namespace Register

/-- An array without the first `n` characters of its name is one member if it was, and its name has
a placeholder if it is not. -/
def KeepsForm (n : Nat) (r : Register) : Prop :=
  r.dim.isSome = true →
    (r.shortened n).isDeclaredAsArray = r.isDeclaredAsArray ∧
      (r.isDeclaredAsArray = true ∨ Placeholder.isIn (r.shortened n).name = true)

variable {n : Nat} {r : Register}

/-- Arrays that lose no placeholder, in particular none at the end, keep their form. -/
theorem keepsForm_of_count (hdeclarable : (Element.register r).IsDeclarable)
    (hlast : Placeholder.isLast (r.shortened n).name = Placeholder.isLast r.name)
    (h : Placeholder.count (r.shortened n).name = Placeholder.count r.name) : r.KeepsForm n := by
  have hname : (r.shortened n).name.toList = r.name.toList.drop n := String.toList_ofList
  have hwhole : (r.shortened n).isDeclaredAsArray = r.isDeclaredAsArray := by
    unfold isDeclaredAsArray isSimpleArray
    rw [hlast, h]
    rfl
  intro hdim
  refine ⟨hwhole, ?_⟩
  rw [Placeholder.isIn_drop hname h]
  rcases Element.isDeclarable_register_iff.1 hdeclarable with hnone | hdeclared | ⟨hin, -⟩
  · rw [hnone] at hdim
    cases hdim
  · exact .inl hdeclared
  · exact .inr hin

end Register

namespace Layout

theorem elements_shortened (n : Nat) (r : Register) (d : Dim) :
    elements (r.shortened n) d = (elements r d).map (Decl.shortened n) := by
  unfold elements
  rw [List.map_flatMap]
  refine List.flatMap_congr fun i _ => ?_
  rw [List.map_cons, (Decl.isRelabelling_shortened n).map_gap]
  rfl

theorem declareRegister_shortened {n : Nat} {r : Register} {c : Content}
    (h : declareRegister r = .ok c) (hform : r.KeepsForm n) :
    declareRegister (r.shortened n) = .ok (c.map (Decl.shortened n)) := by
  rcases declareRegister_eq_ok_iff.1 h with ⟨hwhole, rfl⟩ | ⟨d, hd, hwhole, -, hsize, rfl⟩
  · refine declareRegister_eq_ok_iff.2 (.inl ⟨?_, rfl⟩)
    cases hdim : r.dim with
    | none => exact .inl hdim
    | some d =>
      rw [(hform (by rw [hdim]; rfl)).1]
      exact .inr (hwhole.resolve_left (by simp [hdim]))
  · obtain ⟨hkept, hin⟩ := hform (by rw [hd]; rfl)
    refine declareRegister_eq_ok_iff.2 (.inr ⟨d, hd, hkept.trans hwhole, ?_, hsize, ?_⟩)
    · exact hin.resolve_left (by simp [hwhole])
    · rw [elements_shortened, Content.map, List.map_singleton,
        (Decl.isRelabelling_shortened n).struct_eq]
      rfl

theorem declare_shortened {n : Nat} {e : Element} {c : Content} (h : declare e = .ok c)
    (hform : ∀ r, e = .register r → r.KeepsForm n) :
    declare (e.shortened n) = .ok (c.map (Decl.shortened n)) := by
  cases e with
  | register r =>
    rw [declare] at h
    rw [Element.shortened, declare]
    exact declareRegister_shortened h (hform r rfl)
  | cluster head es =>
    rw [declare] at h
    obtain ⟨members, hmembers, h⟩ := bind_eq_ok.1 h
    obtain ⟨filled, hfilled, h⟩ := bind_eq_ok.1 h
    cases h
    have hfilled' : fillCluster (head.shortened n) members = .ok filled := by
      unfold fillCluster at hfilled ⊢
      rw [show (head.shortened n).dim = head.dim from rfl]
      cases hd : head.dim with
      | none =>
        simp only [hd] at hfilled
        exact hfilled
      | some d =>
        simp only [hd] at hfilled ⊢
        split at hfilled
        · cases hfilled
        · rename_i hfits
          rw [if_neg hfits]
          exact hfilled
    rw [Element.shortened, declare]
    exact bind_eq_ok.2 ⟨members, hmembers, bind_eq_ok.2 ⟨filled, hfilled', rfl⟩⟩

/-- The block that declares shorter names if it declares anything. -/
def Block.shortened (n : Nat) (b : Block) : Block :=
  { b with
    name := .ofList (b.name.toList.drop n)
    content := b.content.map (Content.map (Decl.shortened n)) }

end Layout

/-! ## Layouts -/

section Layouts

variable {common : List Char} {es : List Element} {ds : List Decl}

open Element Layout in
/-- When all arrays keep their form, so does the layout. -/
theorem layout_shortened (h : layout es = .ok ds)
    (hcommon : ∀ e ∈ visible es, common <+: e.name.toList)
    (hform : ∀ r, register r ∈ visible es → r.KeepsForm common.length) :
    layout (es.map (shortened common.length)) =
      .ok (ds.map (Decl.shortened common.length)) := by
  have hblocks : blocks (es.map (shortened common.length)) =
      (blocks es).map (Block.shortened common.length) := by
    rw [blocks_eq_map, blocks_eq_map, visible_map_shortened, List.map_map, List.map_map]
    refine List.map_congr_left fun e he => ?_
    obtain ⟨c, hc⟩ := layout_isOk_iff.1 ⟨ds, h⟩ e he
    have hdeclare := declare_shortened (n := common.length) hc fun r hr => hform r (hr ▸ he)
    simp only [Function.comp, block, Block.shortened, hc, hdeclare, offset_shortened,
      totalSize_shortened, name_shortened]
    rfl
  have hprecedes : ∀ a ∈ blocks es, ∀ b ∈ blocks es, a.precedes b =
      (a.shortened common.length).precedes (b.shortened common.length) := by
    rw [blocks_eq_map]
    intro a ha b hb
    obtain ⟨e, he, rfl⟩ := List.mem_map.1 ha
    obtain ⟨f, hf, rfl⟩ := List.mem_map.1 hb
    have hkept := precedes_shortened (hcommon e he) (hcommon f hf)
    unfold precedes order at hkept
    simp only [offset_shortened, totalSize_shortened, name_shortened] at hkept
    exact hkept.symm
  unfold layout at h ⊢
  rw [hblocks, assemble_map (Decl.isRelabelling_shortened _) hprecedes, h]
  · rfl
  · intro b _
    unfold Block.place Block.shortened
    cases b.content <;> rfl

open Element in
/-- The registers and arrays that are one member of a layout are the visible ones. -/
theorem mem_register_iff_of_leavesAll {ls : List Decl} (h : LeavesAll es ls) {r : Register} :
    Decl.register r r.offset ∈ ls ↔
      register r ∈ visible es ∧ (r.dim = none ∨ r.isDeclaredAsArray = true) := by
  unfold visible
  induction es generalizing ls with
  | nil =>
    cases h
    simp
  | cons e es ih =>
    cases h with
    | hidden hidden tail => simp [hidden, ih tail]
    | visible hvisible head tail =>
      rw [List.mem_append, ih tail, List.filter_cons_of_pos (by simp [hvisible]), List.mem_cons,
        or_and_right]
      refine or_congr_left ?_
      cases head with
      | register hwhole =>
        simp only [List.mem_singleton, Decl.register.injEq, Element.register.injEq]
        constructor
        · rintro ⟨rfl, -⟩
          exact ⟨rfl, hwhole⟩
        · rintro ⟨rfl, -⟩
          exact ⟨rfl, rfl⟩
      | array hdim hapart =>
        constructor
        · intro hr
          simp at hr
        · rintro ⟨hr, hwhole⟩
          cases hr
          simp [hdim, hapart] at hwhole
      | cluster => simp

open Element in
/-- Layouts that differ in names only have arrays that all keep their form. -/
theorem keepsForm_of_layout_shortened (h : layout es = .ok ds)
    (hcommon : ∀ e ∈ visible es, common <+: e.name.toList)
    (hshortened : layout (es.map (shortened common.length)) =
      .ok (ds.map (Decl.shortened common.length))) {r : Register} (hr : register r ∈ visible es) :
    r.KeepsForm common.length := by
  obtain ⟨ls, hls, hperm⟩ := Layout.leavesAll_of_layout h fun e _ => Layout.leaves_of_declare e
  obtain ⟨ls', hls', hperm'⟩ :=
    Layout.leavesAll_of_layout hshortened fun e _ => Layout.leaves_of_declare e
  rw [← Decl.shortenedAll_eq_map, Decl.leavesAll_shortenedAll] at hperm'
  have hr' : register (r.shortened common.length) ∈
      visible (es.map (shortened common.length)) := by
    rw [visible_map_shortened]
    exact List.mem_map.2 ⟨_, hr, rfl⟩
  have hwhole : r.dim.isSome = true →
      ((r.shortened common.length).isDeclaredAsArray = true ↔ r.isDeclaredAsArray = true) := by
    intro hdim
    have hnone : r.dim ≠ none := Option.isSome_iff_ne_none.1 hdim
    have hleaf := (mem_register_iff_of_leavesAll hls (r := r)).trans
      (and_iff_right hr |>.trans (or_iff_right hnone))
    have hleaf' := (mem_register_iff_of_leavesAll hls' (r := r.shortened common.length)).trans
      (and_iff_right hr' |>.trans (or_iff_right hnone))
    rw [← hleaf, ← hleaf', ← hperm.mem_iff, ← hperm'.mem_iff]
    refine Decl.register_mem_map_shortened_iff (fun s hs => ?_) (hcommon _ hr)
    exact hcommon _ ((mem_register_iff_of_leavesAll hls).1 (hperm.mem_iff.1 hs)).1
  intro hdim
  refine ⟨Bool.eq_iff_iff.2 (hwhole hdim), ?_⟩
  have hdeclarable := layout_isOk_iff.1 ⟨_, hshortened⟩ _ hr'
  rcases isDeclarable_register_iff.1 hdeclarable with hnone | hdeclared | ⟨hin, -⟩
  · exact absurd hnone (Option.isSome_iff_ne_none.1 hdim)
  · exact .inl ((hwhole hdim).1 hdeclared)
  · exact .inr hin

end Layouts

namespace Workpiece

open CommonPrefix

instance (p : Peripheral) : Decidable p.HasNoPrefix := inferInstanceAs (Decidable (_ ∨ _))

/-- What is taken of the names: their common part, or nothing. -/
def takenPrefix (w : Workpiece) : List Char :=
  if w.peripheral.HasNoPrefix then [] else ofNames w.peripheral.elementNames

variable {w : Workpiece}

theorem takenPrefix_of_hasNoPrefix (h : w.peripheral.HasNoPrefix) : w.takenPrefix = [] := if_pos h

theorem takenPrefix_of_not_hasNoPrefix (h : ¬w.peripheral.HasNoPrefix) :
    w.takenPrefix = ofNames w.peripheral.elementNames := if_neg h

theorem takenPrefix_of_isRemovable (hprepend : w.peripheral.prependToName = none)
    (h : isRemovable (ofNames w.peripheral.elementNames) w.peripheral.elementNames = true) :
    w.takenPrefix = ofNames w.peripheral.elementNames := by
  refine takenPrefix_of_not_hasNoPrefix fun hnone => ?_
  unfold Peripheral.HasNoPrefix at hnone
  simp [hprepend, h] at hnone

theorem takenPrefix_isPrefix (w : Workpiece) {e : Element} (he : e ∈ w.peripheral.registers) :
    w.takenPrefix <+: e.name.toList := by
  by_cases h : w.peripheral.HasNoPrefix
  · rw [takenPrefix_of_hasNoPrefix h]
    exact List.nil_prefix
  · rw [takenPrefix_of_not_hasNoPrefix h]
    exact ofNames_isPrefix (List.mem_map.2 ⟨e, he, rfl⟩)

theorem shortened_zero (e : Element) : e.shortened 0 = e := by
  cases e <;> simp [Element.shortened, Register.shortened, Cluster.shortened]

/-- The registers are named without the part that is taken, and nothing else of them changes. -/
theorem extractPrefix_registers (w : Workpiece) : w.extractPrefix.state.peripheral.registers =
    w.peripheral.registers.map (Element.shortened w.takenPrefix.length) := by
  by_cases h : w.peripheral.HasNoPrefix
  · rw [takenPrefix_of_hasNoPrefix h, Peripheral.extractPrefix_of_hasNoPrefix h w.conflicts]
    exact (List.map_congr_left fun e _ => shortened_zero e).trans (List.map_id _) |>.symm
  · obtain ⟨-, description, hstate⟩ := Peripheral.extractPrefix_of_not_hasNoPrefix h
    rw [takenPrefix_of_not_hasNoPrefix h, hstate]
    exact List.map_congr_left fun e _ => Element.withName_eq_shortened _ e

/-- What is left of a name ends in a placeholder if the name did: it begins with a letter or an
underscore, so no bracket is cut off. -/
theorem isLast_shortened {r : Register} (hr : .register r ∈ w.peripheral.registers)
    (hcount : Placeholder.count (r.shortened w.takenPrefix.length).name =
      Placeholder.count r.name) :
    Placeholder.isLast (r.shortened w.takenPrefix.length).name = Placeholder.isLast r.name := by
  by_cases h : w.peripheral.HasNoPrefix
  · rw [takenPrefix_of_hasNoPrefix h, Register.shortened, List.length_nil, List.drop_zero,
      String.ofList_toList]
  · refine Placeholder.isLast_drop String.toList_ofList hcount fun hhead => ?_
    rw [takenPrefix_of_not_hasNoPrefix h, Register.shortened, String.toList_ofList] at hhead
    unfold Peripheral.HasNoPrefix at h
    rw [not_or, Bool.not_eq_false, isRemovable, Bool.and_eq_true] at h
    have hstarts := List.all_eq_true.1 h.2.2 r.name.toList (List.mem_map.2 ⟨_, hr, rfl⟩)
    rw [hhead] at hstarts
    exact Bool.noConfusion hstarts

/-- **Prefixes and layout.** Of a peripheral that can be laid out, taking the common part of the
names never fails and changes nothing of its elements but the names. The layout stays the same but
for the names exactly when every array keeps its form, which it does if it loses no placeholder. -/
theorem layout_extractPrefix {ds : List Decl} (h : layout w.peripheral.registers = .ok ds) :
    w.extractPrefix.failure = none ∧
    w.extractPrefix.state.peripheral.registers =
      w.peripheral.registers.map (Element.shortened w.takenPrefix.length) ∧
    (layout w.extractPrefix.state.peripheral.registers =
        .ok (ds.map (Decl.shortened w.takenPrefix.length)) ↔
      ∀ r, .register r ∈ Element.visible w.peripheral.registers →
        r.KeepsForm w.takenPrefix.length) ∧
    ((∀ r, .register r ∈ Element.visible w.peripheral.registers → r.dim.isSome = true →
        Placeholder.count (r.shortened w.takenPrefix.length).name = Placeholder.count r.name) →
      layout w.extractPrefix.state.peripheral.registers =
        .ok (ds.map (Decl.shortened w.takenPrefix.length))) := by
  have hregisters := extractPrefix_registers w
  have hmem : ∀ e ∈ Element.visible w.peripheral.registers, e ∈ w.peripheral.registers :=
    fun e he => List.mem_of_mem_filter he
  have hcommon : ∀ e ∈ Element.visible w.peripheral.registers,
      w.takenPrefix <+: e.name.toList := fun e he => w.takenPrefix_isPrefix (hmem e he)
  have hiff : layout w.extractPrefix.state.peripheral.registers =
        .ok (ds.map (Decl.shortened w.takenPrefix.length)) ↔
      ∀ r, .register r ∈ Element.visible w.peripheral.registers →
        r.KeepsForm w.takenPrefix.length := by
    rw [hregisters]
    exact ⟨fun hlayout r hr => keepsForm_of_layout_shortened h hcommon hlayout hr,
      layout_shortened h hcommon⟩
  refine ⟨?_, hregisters, hiff, fun hcount => hiff.2 fun r hr => ?_⟩
  · by_cases hnone : w.peripheral.HasNoPrefix
    · rw [Peripheral.extractPrefix_of_hasNoPrefix hnone w.conflicts]
      rfl
    · exact (Peripheral.extractPrefix_of_not_hasNoPrefix hnone).1
  · intro hdim
    have hcount := hcount r hr hdim
    exact Register.keepsForm_of_count (layout_isOk_iff.1 ⟨ds, h⟩ _ hr)
      (isLast_shortened (hmem _ hr) hcount) hcount hdim

section Example

private def uart : Peripheral :=
  { name := "UART", baseAddress := 0,
    registers := [.register (.plain "UART_FIFO%s" 0 32 (some (.counted 4 2))),
      .register (.plain "UART_CTRL" 8 16)] }

private def uartDecls : List Decl :=
  [.register (.plain "UART_FIFO%s" 0 32 (some (.counted 4 2))) 0,
   .register (.plain "UART_CTRL" 8 16) 8]

theorem layout_extractPrefix_uart :
    layout uart.registers = .ok uartDecls ∧
      layout (extractPrefix ⟨uart, []⟩).state.peripheral.registers =
        .ok (uartDecls.map (Decl.shortened 5)) := by
  have hlayout : layout uart.registers = .ok uartDecls := by cbv
  have htaken : (Workpiece.mk uart []).takenPrefix = ['U', 'A', 'R', 'T', '_'] := by
    rw [takenPrefix_of_isRemovable rfl (by cbv)]
    cbv
  obtain ⟨-, -, -, hkept⟩ := layout_extractPrefix (w := ⟨uart, []⟩) hlayout
  rw [htaken] at hkept
  refine ⟨hlayout, hkept fun r hr _ => ?_⟩
  have hr : Element.register r ∈ uart.registers := List.mem_of_mem_filter hr
  simp only [uart, List.mem_cons, Element.register.injEq, List.not_mem_nil, or_false] at hr
  rcases hr with rfl | rfl
  · cbv
  · cbv

/-- Two words with a gap behind each. -/
private def spaced (name : String) (offset : Nat) : Register :=
  .plain name offset 32 (some (.counted 8 2))

private theorem isDeclarable_spaced {name : String} {offset : Nat} :
    (Element.register (spaced name offset)).IsDeclarable ↔ Placeholder.isIn name = true := by
  have hpacked : (spaced name offset).isPacked = false := by
    simp [Register.isPacked, spaced, Register.plain, Dim.counted, Register.elementSize,
      Bits.bytes, Bits.limit]
  have hapart : (spaced name offset).isDeclaredAsArray = false := by
    simp [Register.isDeclaredAsArray, Register.isSimpleArray, hpacked]
  rw [Element.isDeclarable_register_iff, hapart]
  simp [spaced, Register.plain, Register.elementSize, Bits.bytes, Bits.limit, Dim.counted]

private def dac : Peripheral :=
  { name := "DAC", baseAddress := 0,
    registers := [.register (spaced "CH%sL" 0), .register (spaced "CH%sH" 16)] }

/-- All names of the peripheral share a placeholder, which is taken from them: its arrays cannot be
laid out any more. -/
theorem extractPrefix_dac :
    (∃ ds, layout dac.registers = .ok ds) ∧
      ¬∃ ds, layout (extractPrefix ⟨dac, []⟩).state.peripheral.registers = .ok ds := by
  constructor
  · rw [layout_isOk_iff]
    intro e he
    have he : e ∈ dac.registers := List.mem_of_mem_filter he
    simp only [dac, List.mem_cons, List.not_mem_nil, or_false] at he
    rcases he with rfl | rfl
    · exact isDeclarable_spaced.2 (by cbv)
    · exact isDeclarable_spaced.2 (by cbv)
  · have htaken : (Workpiece.mk dac []).takenPrefix = ['C', 'H', '%', 's'] := by
      rw [takenPrefix_of_isRemovable rfl (by cbv)]
      cbv
    rw [extractPrefix_registers, htaken, layout_isOk_iff]
    intro h
    have hlow : Element.register (spaced "L" 0) ∈
        Element.visible (dac.registers.map (Element.shortened 4)) :=
      List.mem_filter.2 ⟨List.mem_cons_self, rfl⟩
    have hin : Placeholder.isIn "L" = true := isDeclarable_spaced.1 (h _ hlow)
    exact absurd hin (by decide)

end Example

end Workpiece

end RegisterMap
