import Mathlib
import RegisterMap.Proofs.Arrays.Everywhere
import RegisterMap.Proofs.Arrays.Names
import RegisterMap.Proofs.Blocks.Footprint
import RegisterMap.Proofs.Prefix

/-!
# Indexes behind a common part

A peripheral without rules of its own finds the index of a register at the end of its name. What
the names start with does not matter then, as long as a name is left behind it
(`Arrays.firstIndex?_append`): registers that made no array under their full names make none without
the common part (`Peripheral.rests_takePrefix`).
-/

namespace RegisterMap

namespace Pattern

variable {α β : Type} {accepts : Char → Bool} {next : List Char → Option α}

theorem matchRun_map (f : α → β) (greedy : Bool) (least : Nat) (s : List Char) :
    matchRun accepts greedy (fun rest => (next rest).map f) least s =
      (matchRun accepts greedy next least s).map f := by
  fun_induction matchRun accepts greedy next least s <;>
    simp_all [matchRun, Option.map_or]

/-- A greedy run that must end the text takes all of it. -/
theorem matchRun_end (f : List Char → Option α) (s : List Char) :
    matchRun accepts true (fun rest => if rest.isEmpty then f rest else none) 0 s =
      if s.all accepts then f [] else none := by
  induction s with
  | nil => rfl
  | cons c cs ih =>
    rw [matchRun, List.all_cons]
    by_cases hc : accepts c = true
    · rw [if_pos hc, if_pos rfl, ih, hc, Bool.true_and]
      exact Option.orElse_eq_or.trans Option.or_none
    · rw [if_neg hc, Bool.eq_false_iff.2 hc, Bool.false_and]
      rfl

/-- A reluctant run passes over what it may take and what cannot go on behind it. -/
theorem matchRun_append {c m : List Char} (hc : ∀ x ∈ c, accepts x = true)
    (hnext : ∀ t, t ≠ [] → t <:+ c → next (t ++ m) = none) :
    matchRun accepts false next 0 (c ++ m) = matchRun accepts false next 0 m := by
  induction c with
  | nil => rfl
  | cons x c ih =>
    obtain ⟨hx, hc⟩ := List.forall_mem_cons.1 hc
    have hhere := hnext (x :: c) (List.cons_ne_nil x c) List.suffix_rfl
    rw [List.cons_append] at hhere ⊢
    rw [matchRun, if_pos hx, if_neg Bool.false_ne_true, hhere]
    exact ih hc fun t ht hsuffix => hnext t ht (hsuffix.trans (List.suffix_cons x c))

end Pattern

namespace Arrays

open Pattern

/-- A hexadecimal letter or a bar. -/
def isIndexLetter (c : Char) : Bool := between 'A' 'F' c || between 'a' 'f' c || c == '|'

/-- The text is an index of the usual rule: a number, a letter or a bar. -/
def isIndex : List Char → Bool
  | [] => false
  | c :: cs => (c :: cs).all Text.isDecimal || cs.isEmpty && isIndexLetter c

/-- The index at the end of a name, behind as few characters as possible. -/
def firstIndex? (s : List Char) : Option (List Char) :=
  matchRun inLine false (fun rest => if isIndex rest then some rest else none) 1 s

/-- What the usual rule takes for an index ends a name. -/
theorem matchThen_index (rest : List Char) (gs : Groups) :
    (group 2 (alt digits (one isIndexLetter))).matchThen
        (fun rest gs => if rest.isEmpty then some gs else none) rest gs =
      if isIndex rest then some ((2, rest) :: gs) else none := by
  cases rest with
  | nil => rfl
  | cons c cs =>
    have hrun := @matchRun_end _ Text.isDecimal
      (fun rest => some ((2, (c :: cs).take ((c :: cs).length - rest.length)) :: gs)) cs
    simp only [matchThen, digits, matchRun, hrun, isIndex, List.all_cons]
    have hall : (c :: cs).take ((c :: cs).length - ([] : List Char).length) = c :: cs :=
      List.take_length
    rw [hall]
    by_cases hdigit : Text.isDecimal c = true <;> by_cases hletter : isIndexLetter c = true <;>
      cases cs <;> simp [hdigit, hletter]

/-- The usual rule splits a name in front of its index. -/
theorem usualRule_split? (name : String) :
    usualRule.split? name = (firstIndex? name.toList).map fun index =>
      (.ofList (name.toList.take (name.toList.length - index.length) ++ "%s".toList),
        .ofList index) := by
  have hnext (rest : List Char) (gs : Groups) := matchThen_index rest gs
  have hgroups : usualRule.pattern.groups? name = (firstIndex? name.toList).map fun index =>
      [(2, index), (1, name.toList.take (name.toList.length - index.length))] := by
    rw [firstIndex?, ← matchRun_map]
    show matchRun inLine false (fun rest => (group 2 (alt digits (one isIndexLetter))).matchThen
      (fun rest gs => if rest.isEmpty then some gs else none) rest
        [(1, name.toList.take (name.toList.length - rest.length))]) 1 name.toList = _
    congr 1
    funext rest
    rw [matchThen_index]
    split <;> rfl
  rw [IndexRule.split?, hgroups, Option.map_map]
  congr 1
  funext index
  simp [usualRule, Template.fill, List.lookup_cons]

/-! ## Names with something in front -/

theorem isDecimal_of_startsName {c : Char} (h : CommonPrefix.startsName c = true) :
    Text.isDecimal c = false := by
  have hletter : 58 ≤ c.toNat ∧ c.toNat < 0x660 := by
    simp only [CommonPrefix.startsName, Char.isAlpha, Char.isUpper, Char.isLower, Bool.or_eq_true,
      Bool.and_eq_true, decide_eq_true_eq, beq_iff_eq, UInt32.le_iff_toNat_le] at h
    rcases h with (⟨hlow, hhigh⟩ | ⟨hlow, hhigh⟩) | rfl
    · exact ⟨Nat.le_trans (by decide) hlow, Nat.lt_of_le_of_lt hhigh (by decide)⟩
    · exact ⟨Nat.le_trans (by decide) hlow, Nat.lt_of_le_of_lt hhigh (by decide)⟩
    · decide
  have hzeros : ∀ z ∈ Text.zeros, z = 0x30 ∨ 0x660 ≤ z := by decide
  refine List.any_eq_false.2 fun z hz => ?_
  rw [Bool.and_eq_true, decide_eq_true_eq, decide_eq_true_eq]
  rcases hzeros z hz with rfl | hz
  · omega
  · omega

/-- An index of more than one character consists of digits. -/
theorem isIndex_eq_false {s : List Char} {c : Char} (hc : c ∈ s) (hdigit : Text.isDecimal c = false)
    (hlength : 1 < s.length) : isIndex s = false := by
  cases s with
  | nil => rfl
  | cons d ds =>
    have hall : (d :: ds).all Text.isDecimal = false :=
      List.all_eq_false.2 ⟨c, hc, by rw [hdigit]; exact Bool.false_ne_true⟩
    have hds : ds.isEmpty = false := by
      cases ds with
      | nil => exact absurd hlength (by simp)
      | cons _ _ => rfl
    rw [isIndex, hall, hds, Bool.false_and, Bool.or_false]

/-- A name with something in front has its index where it had it. -/
theorem firstIndex?_append {common m index : List Char} (hcommon : common ≠ [])
    (hline : ∀ c ∈ common, inLine c = true)
    (hm : m.head?.any CommonPrefix.startsName = true) (h : firstIndex? m = some index) :
    firstIndex? (common ++ m) = some index ∧ index.length ≤ m.length := by
  cases m with
  | nil => cases hm
  | cons x m =>
    have hdigit : Text.isDecimal x = false := isDecimal_of_startsName hm
    rw [firstIndex?, matchRun] at h
    split at h
    · rename_i hx
      obtain ⟨t, rest, rfl, -, hrest⟩ := parses_of_matchRun h
      obtain ⟨hindex, rfl⟩ : isIndex rest = true ∧ rest = index := by
        split at hrest
        · rename_i hindex
          exact ⟨hindex, Option.some.inj hrest⟩
        · cases hrest
      have hlength : 1 ≤ rest.length := by
        cases rest with
        | nil => cases hindex
        | cons _ _ => exact Nat.succ_pos _
      -- nothing that holds the first character of the name is an index
      have hnot (s : List Char) :
          (if isIndex (s ++ x :: (t ++ rest)) then some (s ++ x :: (t ++ rest)) else none) =
            none := by
        rw [isIndex_eq_false (c := x) (by simp) hdigit (by simp; omega)]
        rfl
      refine ⟨?_, by simp; omega⟩
      cases common with
      | nil => exact absurd rfl hcommon
      | cons y common =>
        obtain ⟨hy, hline⟩ := List.forall_mem_cons.1 hline
        rw [firstIndex?, List.cons_append, matchRun, if_pos hy,
          matchRun_append hline fun s _ _ => hnot s, matchRun, if_pos hx,
          if_neg Bool.false_ne_true]
        rw [show (if isIndex (x :: (t ++ rest)) = true then some (x :: (t ++ rest)) else none) =
          none from hnot []]
        exact h
    · cases h

/-- A name that is left behind a common part is split as the full name is. -/
theorem usualRule_split?_append {common : List Char} {name short array index : String}
    (hname : name.toList = common ++ short.toList) (hcommon : common ≠ [])
    (hline : ∀ c ∈ common, inLine c = true)
    (hshort : short.toList.head?.any CommonPrefix.startsName = true)
    (h : usualRule.split? short = some (array, index)) :
    usualRule.split? name = some (.ofList (common ++ array.toList), index) := by
  rw [usualRule_split?] at h ⊢
  obtain ⟨i, hi, heq⟩ := Option.map_eq_some_iff.1 h
  obtain ⟨rfl, rfl⟩ := Prod.mk.inj heq
  obtain ⟨hfirst, hle⟩ := firstIndex?_append hcommon hline hshort hi
  have hlength : (common ++ short.toList).length - i.length =
      common.length + (short.toList.length - i.length) := by
    rw [List.length_append]
    omega
  rw [hname, hfirst, Option.map_some, hlength, List.take_length_add_append, List.append_assoc]
  simp only [String.toList_ofList]

/-! ## Levels without their common part -/

/-- The peripheral has neither a rule for indexes of its own nor registers that are kept apart. -/
def isUsual (peripheral : String) : Bool :=
  (ofPeripheral? rules peripheral).isNone && (ofPeripheral? keptApart peripheral).isNone

variable {site : Site} {a b : Element} {common m n : List Char}

theorem Site.seed?_of_isUsual (h : isUsual site.peripheral = true) (r : Register) :
    site.seed? r =
      if isSingle r then (usualRule.split? r.name).map fun (array, index) =>
        ⟨usualRule, site.comparison, r, array, index⟩
      else none := by
  rw [isUsual, Bool.and_eq_true, Option.isNone_iff_eq_none, Option.isNone_iff_eq_none] at h
  rw [seed?, isKeptApart, h.2, ruleOf, h.1]
  simp

/-- Registers that make no array make none under the ends of their names. -/
theorem Site.Apart.withName (husual : isUsual site.peripheral = true)
    (ha : a.name.toList = common ++ m) (hb : b.name.toList = common ++ n) (hcommon : common ≠ [])
    (hline : ∀ c ∈ common, inLine c = true) (hm : m.head?.any CommonPrefix.startsName = true)
    (hn : n.head?.any CommonPrefix.startsName = true) (h : site.Apart a b) :
    site.Apart (a.withName (.ofList m)) (b.withName (.ofList n)) := by
  have hfull {r : Register} {t : List Char} {array index : String}
      (hr : r.name.toList = common ++ t) (ht : t.head?.any CommonPrefix.startsName = true)
      (hsplit : usualRule.split? (.ofList t) = some (array, index)) :
      usualRule.split? r.name = some (.ofList (common ++ array.toList), index) := by
    refine usualRule_split?_append ?_ hcommon hline ?_ hsplit
    · rw [String.toList_ofList, hr]
    · rw [String.toList_ofList]
      exact ht
  intro r s hr hs
  cases a with
  | cluster c es => cases hr
  | register r₀ =>
    cases hr
    rw [Site.seed?_of_isUsual husual] at hs
    split at hs
    · rename_i hsingle
      have hsingle : isSingle r₀ = true := hsingle
      obtain ⟨⟨array, index⟩, hsplit, rfl⟩ := Option.map_eq_some_iff.1 hs
      have hseed : site.seed? r₀ = some ⟨usualRule, site.comparison, r₀,
          .ofList (common ++ array.toList), index⟩ := by
        rw [Site.seed?_of_isUsual husual, if_pos hsingle, hfull ha hm hsplit]
        rfl
      have hnone := h r₀ _ rfl hseed
      cases htakes : Seed.takes? _ 1 (b.withName (.ofList n)) with
      | none => rfl
      | some i =>
        obtain ⟨v, hv, hvsingle, hvsplit, hoffset, hequivalent⟩ := Seed.takes?_eq_some htakes
        cases b with
        | cluster c es => cases hv
        | register v₀ =>
          cases hv
          have hvsingle : isSingle v₀ = true := hvsingle
          simp only [Seed.takes?, hvsingle, if_true, hfull hb hn hvsplit] at hnone
          rw [if_pos] at hnone
          · cases hnone
          · rw [Bool.and_eq_true, Bool.and_eq_true]
            exact ⟨⟨beq_self_eq_true _, beq_iff_eq.2 hoffset⟩, hequivalent⟩
    · cases hs

theorem Site.foldInside_withName (site : Site) (name : String) {e : Element}
    (h : site.foldInside e = (e, none)) :
    site.foldInside (e.withName name) = (e.withName name, none) := by
  cases e with
  | register r => rfl
  | cluster c es =>
    rw [Element.withName, Site.foldInside_cluster]
    rw [Site.foldInside_cluster] at h
    obtain ⟨helement, hdone⟩ := Prod.mk.inj h
    rw [(Element.cluster.inj helement).2, hdone]

end Arrays

namespace Peripheral

open Arrays CommonPrefix Element

/-- No name of a register or cluster has more than one line. -/
def HasLineNames (p : Peripheral) : Prop :=
  ∀ e ∈ p.registers, e.Everywhere (fun r => '\n' ∉ r.name.toList) fun c => '\n' ∉ c.name.toList

theorem HasLineNames.sort {p : Peripheral} (h : p.HasLineNames) : p.sort.HasLineNames := by
  intro e he
  obtain ⟨f, hf, rfl⟩ := mem_sortAll_iff.1 he
  exact (h f hf).sortWithin

theorem HasLineNames.elementNames {p : Peripheral} (h : p.HasLineNames) :
    ∀ n ∈ p.elementNames, '\n' ∉ n := by
  intro n hn
  obtain ⟨e, he, rfl⟩ := List.mem_map.1 hn
  cases h e he with
  | register hr => exact hr
  | cluster hc => exact hc

/-- The arrays of a usual peripheral are named with parts of register names. -/
theorem HasLineNames.foldArrays {p : Peripheral} {cmp : Comparison} (husual : isUsual p.name = true)
    (h : p.HasLineNames) : (p.foldArrays cmp).state.HasLineNames := by
  refine everywhere_foldArrays ⟨fun hr => hr, fun {r s} hs hr is hmem => ?_⟩ h
  rw [Site.seed?_of_isUsual husual] at hs
  split at hs
  · obtain ⟨⟨array, index⟩, hsplit, rfl⟩ := Option.map_eq_some_iff.1 hs
    obtain ⟨a, b, hname, harray, -⟩ := usualRule_restores _ _ _ hsplit
    have hmem : '\n' ∈ array.toList := hmem
    rw [harray, List.mem_append, List.mem_append] at hmem
    rw [hname, List.mem_append, List.mem_append] at hr
    rcases hmem with (hmem | hmem) | hmem
    · exact hr (.inl (.inl hmem))
    · exact absurd hmem (by decide)
    · exact hr (.inr hmem)
  · cases hs

/-- A usual peripheral with nothing to fold has nothing to fold either when its names lose what they
have in common. -/
theorem rests_takePrefix {p : Peripheral} {cmp : Comparison} (husual : isUsual p.name = true)
    (hremovable : isRemovable (ofNames p.elementNames) p.elementNames = true)
    (hline : ∀ n ∈ p.elementNames, '\n' ∉ n) (h : Site.Rests ⟨p.name, cmp⟩ p.registers) :
    Site.Rests ⟨p.name, cmp⟩ (p.takePrefix (ofNames p.elementNames)).registers := by
  have hstart : ∀ n ∈ p.elementNames, ofNames p.elementNames <+: n :=
    fun n hn => ofNames_isPrefix hn
  generalize ofNames p.elementNames = common at hremovable hstart ⊢
  obtain ⟨hsize, hnames⟩ := Bool.and_eq_true_iff.1 hremovable
  have hcommon : common ≠ [] := by
    rintro rfl
    exact absurd hsize (by decide)
  have hname : ∀ e ∈ p.registers, e.name.toList = common ++ e.name.toList.drop common.length :=
    fun e he => (List.prefix_iff_eq_append.1
      (hstart _ (List.mem_map.2 ⟨e, he, rfl⟩))).symm
  have hstarts : ∀ e ∈ p.registers,
      (e.name.toList.drop common.length).head?.any startsName = true :=
    fun e he => List.all_eq_true.1 hnames _ (List.mem_map.2 ⟨e, he, rfl⟩)
  refine ⟨sortAll_takePrefix hstart h.sorted,
    (sameBlocks_takePrefix p common).isIntactAll_eq.trans h.intact, ?_, fun r hr hsingle => ?_,
    fun f hf => ?_⟩
  · refine List.pairwise_map.2 (h.apart.imp_of_mem fun {a b} ha hb hab => ?_)
    have hinLine : ∀ c ∈ common, Pattern.inLine c = true := by
      intro c hc
      have hmem := (hstart _ (List.mem_map.2 ⟨a, ha, rfl⟩)).subset hc
      rw [Pattern.inLine, bne_iff_ne]
      rintro rfl
      exact hline _ (List.mem_map.2 ⟨a, ha, rfl⟩) hmem
    exact hab.withName husual (hname a ha) (hname b hb) hcommon hinLine (hstarts a ha)
      (hstarts b hb)
  · obtain ⟨e, he, her⟩ := List.mem_map.1 hr
    cases e with
    | cluster c es => cases her
    | register r₀ =>
      have hunmarked := h.unmarked r₀ he
      cases her
      have hunmarked := Placeholder.isIn_eq_false.1 (hunmarked hsingle)
      refine Placeholder.isIn_eq_false.2 fun hin => hunmarked ?_
      rw [String.toList_ofList] at hin
      exact hin.trans (List.drop_suffix _ _).isInfix
  · obtain ⟨e, he, rfl⟩ := List.mem_map.1 hf
    exact Site.foldInside_withName _ _ (h.inside e he)

end Peripheral

end RegisterMap
