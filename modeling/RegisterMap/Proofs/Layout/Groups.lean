import Mathlib.Logic.Relation
import RegisterMap.Proofs.Layout.Declarable
import RegisterMap.Proofs.Layout.Leaves

/-!
# Overlap groups

The unions of a layout are the groups of elements that overlaps join, directly or through others:
`layout_groups`. Elements in order fall into windows; one that begins before the end of its window
overlaps an element of it (`linked_of_window`), and one behind the window overlaps none of them.
-/

namespace RegisterMap

namespace Element

/-- The byte lies in the element. -/
def Has (e : Element) (x : Nat) : Prop := e.offset ≤ x ∧ x < e.fin

/-- The elements have a byte in common. -/
def Overlaps (a b : Element) : Prop := ∃ x, a.Has x ∧ b.Has x

/-- A chain of elements of the list, each of which overlaps the next, leads from one to the
other. -/
def Linked (es : List Element) : Element → Element → Prop :=
  Relation.ReflTransGen fun a b => a ∈ es ∧ b ∈ es ∧ a.Overlaps b

/-- The groups make up the list, and elements are in one group when a chain leads from one to the
other. -/
structure IsGrouping (es : List Element) (gs : List (List Element)) : Prop where
  perm : gs.flatten.Perm es
  ne_nil : ∀ g ∈ gs, g ≠ []
  linked : ∀ g ∈ gs, ∀ a ∈ g, ∀ b ∈ g, Linked es a b
  apart : gs.Pairwise fun g h => ∀ a ∈ g, ∀ b ∈ h, ¬Linked es a b

theorem Overlaps.symm {a b : Element} (h : a.Overlaps b) : b.Overlaps a := by
  obtain ⟨x, ha, hb⟩ := h
  exact ⟨x, hb, ha⟩

theorem Linked.symm {es : List Element} {a b : Element} (h : Linked es a b) : Linked es b a := by
  induction h with
  | refl => exact .refl
  | tail _ hstep ih => exact .head ⟨hstep.2.1, hstep.1, hstep.2.2.symm⟩ ih

/-- All of the first elements end before any of the others begins. -/
def Before (g h : List Element) : Prop := ∀ a ∈ g, ∀ b ∈ h, a.fin ≤ b.offset

/-- A chain does not leave a list of elements that all others come before or behind. -/
theorem Linked.mem {es : List Element} {gs : List (List Element)} (hes : ∀ e ∈ es, e ∈ gs.flatten)
    (hgs : gs.Pairwise Before) {g : List Element} (hg : g ∈ gs) {a b : Element} (ha : a ∈ g)
    (h : Linked es a b) : b ∈ g := by
  induction h with
  | refl => exact ha
  | @tail c b _ hstep hc =>
    obtain ⟨-, hb, x, ⟨hclo, hchi⟩, hblo, hbhi⟩ := hstep
    obtain ⟨front, back, rfl⟩ := List.append_of_mem hg
    obtain ⟨-, hback, hfront⟩ := List.pairwise_append.1 hgs
    have hb := hes b hb
    rw [List.flatten_append, List.flatten_cons, List.mem_append, List.mem_append] at hb
    rcases hb with hb | hb | hb
    · obtain ⟨k, hk, hb⟩ := List.mem_flatten.1 hb
      have := hfront k hk g List.mem_cons_self b hb c hc
      omega
    · exact hb
    · obtain ⟨k, hk, hb⟩ := List.mem_flatten.1 hb
      have := List.rel_of_pairwise_cons hback hk c hc b hb
      omega

/-- Lists of linked elements that come one behind the other are the groups. -/
theorem isGrouping_of_before {es : List Element} {gs : List (List Element)}
    (hpos : ∀ e ∈ es, 0 < e.totalSize) (hperm : gs.flatten.Perm es) (hne : ∀ g ∈ gs, g ≠ [])
    (hlinked : ∀ g ∈ gs, ∀ a ∈ g, ∀ b ∈ g, Linked es a b) (hgs : gs.Pairwise Before) :
    IsGrouping es gs := by
  refine ⟨hperm, hne, hlinked, hgs.imp_of_mem fun {g h} hg hh hbefore a ha b hb hab => ?_⟩
  have hbg : b ∈ g := hab.mem (fun e he => hperm.mem_iff.2 he) hgs hg ha
  have hbes : b ∈ es := hperm.mem_iff.1 (List.mem_flatten_of_mem hh hb)
  have hself := hbefore b hbg b hb
  have hsize := hpos b hbes
  unfold fin at hself
  omega

/-- An element that overlaps none of the others is a group by itself. -/
theorem IsGrouping.singleton_mem {es rest : List Element} {gs : List (List Element)}
    (h : IsGrouping es gs) (hpos : ∀ e ∈ es, 0 < e.totalSize) {e : Element}
    (hes : es.Perm (e :: rest)) (hrest : ∀ a ∈ rest, ¬e.Overlaps a) : [e] ∈ gs := by
  have hmem : e ∈ es := hes.mem_iff.2 List.mem_cons_self
  have hself : e.Overlaps e := by
    have := hpos e hmem
    exact ⟨e.offset, ⟨Nat.le_refl _, by unfold fin; omega⟩, Nat.le_refl _, by unfold fin; omega⟩
  -- no chain leads away from the element
  have hstuck : ∀ b, Linked es e b → b = e := by
    intro b hb
    induction hb with
    | refl => rfl
    | tail _ hstep ih =>
      subst ih
      rcases List.mem_cons.1 (hes.mem_iff.1 hstep.2.1) with hb | hb
      · exact hb
      · exact absurd hstep.2.2 (hrest _ hb)
  obtain ⟨g, hg, heg⟩ := List.mem_flatten.1 (h.perm.mem_iff.2 hmem)
  have hall : ∀ b ∈ g, b = e := fun b hb => hstuck b (h.linked g hg e heg b hb)
  -- and the element is there once only
  have hcount : g.count e ≤ 1 := by
    have hsub : g.Sublist gs.flatten := List.sublist_flatten_of_mem hg
    have hle := hsub.count_le e
    have hnone : rest.count e = 0 := List.count_eq_zero.2 fun he => hrest e he hself
    rw [h.perm.count_eq, hes.count_eq, List.count_cons_self, hnone] at hle
    exact hle
  have hreplicate : g = List.replicate g.length e := List.eq_replicate_iff.2 ⟨rfl, hall⟩
  have hlength : g.length = 1 := by
    have hpositive := List.length_pos_of_mem heg
    rw [hreplicate, List.count_replicate_self] at hcount
    omega
  rw [hlength] at hreplicate
  rwa [hreplicate] at hg

end Element

namespace Decl

def isUnion : Decl → Bool
  | union _ _ _ => true
  | _ => false

/-- The declaration is a union over the range of the elements, from the first byte of them to the
last, and holds these elements and no others. -/
inductive IsUnionOf (g : List Element) : Decl → Prop
  | intro {offset size : Nat} {members : List Decl}
      (bounds : ∀ e ∈ g, offset ≤ e.offset ∧ e.fin ≤ offset + size)
      (first : ∃ e ∈ g, e.offset = offset) (last : ∃ e ∈ g, e.fin = offset + size)
      (leaves : Element.LeavesAll g (leavesAll members)) : IsUnionOf g (.union offset size members)

/-- The declaration is neither a union nor a structure. -/
def isSingle : Decl → Bool
  | union _ _ _ => false
  | struct _ _ _ => false
  | _ => true

theorem isSingle_of_mem_gap {a b : Nat} {d : Decl} (h : d ∈ gap a b) : d.isSingle = true := by
  unfold gap at h
  split at h
  · cases List.mem_singleton.1 h
    rfl
  · cases h

theorem filter_isUnion_of_isSingle {ds : List Decl} (h : ∀ d ∈ ds, d.isSingle = true) :
    ds.filter isUnion = [] := by
  refine List.filter_eq_nil_iff.2 fun d hd hunion => ?_
  have hsingle := h d hd
  cases d <;> simp_all [isUnion, isSingle]

theorem leavesAll_sublist_of_isSingle {ds : List Decl} (h : ∀ d ∈ ds, d.isSingle = true) :
    (leavesAll ds).Sublist ds := by
  induction ds with
  | nil => exact .slnil
  | cons d ds ih =>
    obtain ⟨hd, hds⟩ := List.forall_mem_cons.1 h
    have hleaves : d.leaves.Sublist [d] := by
      cases d with
      | register r o => exact .refl _
      | element r i o => exact .refl _
      | cluster c o s ms => exact .refl _
      | union o s ms => cases hd
      | struct o s ms => cases hd
      | reserved o s => exact List.nil_sublist _
    exact hleaves.append (ih hds)

end Decl

namespace Layout

open Element

theorem isSingle_of_declare {e : Element} {c : Content} (h : declare e = .ok c) :
    ∀ d ∈ c.alone, d.isSingle = true := by
  cases e with
  | register r =>
    rw [declare] at h
    rcases declareRegister_eq_ok_iff.1 h with ⟨-, rfl⟩ | ⟨dim, -, -, -, -, rfl⟩
    · exact List.forall_mem_singleton.2 rfl
    · intro d hd
      obtain ⟨i, -, hd⟩ := List.mem_flatMap.1 hd
      rcases List.mem_cons.1 hd with rfl | hd
      · rfl
      · exact Decl.isSingle_of_mem_gap hd
  | cluster head es =>
    rw [declare] at h
    obtain ⟨members, -, h⟩ := bind_eq_ok.1 h
    obtain ⟨filled, -, h⟩ := bind_eq_ok.1 h
    cases h
    exact List.forall_mem_singleton.2 rfl

/-! ## Windows -/

/-- The blocks of a window are a window when nothing comes behind them. -/
theorem window_window {start last : Nat} {ps ws rest : List Placed}
    (h : window start ps = (ws, last, rest)) : window start ws = (ws, last, []) := by
  induction ps generalizing start ws with
  | nil =>
    cases h
    rfl
  | cons p ps ih =>
    rw [window] at h
    split at h
    · rename_i hp
      obtain ⟨⟨ws', last', rest'⟩, htail⟩ : ∃ w, window (max start p.fin) ps = w := ⟨_, rfl⟩
      rw [htail] at h
      cases h
      rw [window, if_pos hp, ih htail]
    · cases h
      rfl

/-- A window of several blocks becomes one union. -/
theorem declareWindow_cases {p : Placed} {ws : List Placed} {last : Nat} {here : List Decl}
    (h : declareWindow p ws last = .ok here) :
    (ws = [] ∧ here = p.content.alone) ∨
      (ws ≠ [] ∧ ∃ members, here = [.union p.offset (last - p.offset) members]) := by
  simp only [declareWindow] at h
  split at h
  · rename_i hempty
    cases h
    exact .inl ⟨List.isEmpty_iff.1 hempty, rfl⟩
  · rename_i hseveral
    have hne : ws ≠ [] := fun hnil => hseveral (List.isEmpty_iff.2 hnil)
    refine .inr ⟨hne, ?_⟩
    split at h
    · split at h
      · cases h
        exact ⟨_, rfl⟩
      · obtain ⟨inner, -, h⟩ := bind_eq_ok.1 h
        cases h
        exact ⟨_, rfl⟩
    · cases h
      exact ⟨_, rfl⟩

section Window

variable {last : Nat} {p : Placed} {ps ws rest : List Placed}

/-- A window has the leaves of its blocks. -/
theorem leavesAll_of_declareWindow {here : List Decl} (hw : window p.fin ps = (ws, last, rest))
    (h : declareWindow p ws last = .ok here) (heven : ∀ q ∈ p :: ws, q.Even) :
    Decl.leavesAll here = (p :: ws).flatMap fun q => Decl.leavesAll q.content.alone := by
  have harrange : arrange p.offset (p :: ws) = .ok (here, last) := by
    rw [arrange_cons, if_neg (Nat.lt_irrefl _), window_window hw]
    simp only [h, arrange_nil, bind, Except.bind, pure, Except.pure, Decl.gap,
      if_neg (Nat.lt_irrefl _), List.nil_append, List.append_nil]
  exact leavesAll_of_arranged (arranged_of_arrange harrange) heven

/-- The elements of a window are linked with any that was there before and reaches as far as the
window did. -/
theorem linked_of_window {vs g : List Element} {e : Element} {start : Nat}
    (hw : window start ws = (ws, last, [])) (hplaced : List.Forall₂ IsPlaced g ws)
    (hsorted : g.Pairwise fun a b => a.offset ≤ b.offset) (hg : ∀ b ∈ g, b ∈ vs)
    (hpos : ∀ b ∈ vs, 0 < b.totalSize)
    (hstart : ∃ a ∈ vs, Linked vs e a ∧ a.fin = start ∧ ∀ b ∈ g, a.offset ≤ b.offset) :
    ∀ b ∈ g, Linked vs e b := by
  induction hplaced generalizing start with
  | nil =>
    intro b hb
    cases hb
  | @cons b q g ws hq _ ih =>
    obtain ⟨a, ha, hea, hfin, hle⟩ := hstart
    obtain ⟨hb, hg⟩ := List.forall_mem_cons.1 hg
    rw [window] at hw
    split at hw
    · rename_i hbegins
      obtain ⟨⟨ws', last', rest'⟩, htail⟩ : ∃ w, window (max start q.fin) ws = w := ⟨_, rfl⟩
      rw [htail] at hw
      cases hw
      have hqfin : q.fin = b.fin := by
        rw [Placed.fin, hq.offset_eq, hq.size_eq, Element.fin]
      rw [hq.offset_eq] at hbegins
      have hoverlaps : a.Overlaps b :=
        ⟨b.offset, ⟨hle b List.mem_cons_self, by omega⟩, Nat.le_refl _,
          Nat.lt_add_of_pos_right (hpos b hb)⟩
      have heb : Linked vs e b := hea.tail ⟨ha, hb, hoverlaps⟩
      refine List.forall_mem_cons.2 ⟨heb, ih htail hsorted.of_cons hg ?_⟩
      -- the one that reaches further of the two carries on
      rcases Nat.le_total start q.fin with hmax | hmax
      · rw [Nat.max_eq_right hmax]
        exact ⟨b, hb, heb, hqfin.symm, fun c hc => List.rel_of_pairwise_cons hsorted hc⟩
      · rw [Nat.max_eq_left hmax]
        exact ⟨a, ha, hea, hfin, fun c hc => hle c (List.mem_cons_of_mem _ hc)⟩
    · cases hw

end Window

/-- Some block ends where all of them do. -/
theorem exists_fin_eq_reach (p : Placed) (ws : List Placed) :
    ∃ q ∈ p :: ws, q.fin = reach p.fin ws := by
  induction ws with
  | nil => exact ⟨p, List.mem_cons_self, rfl⟩
  | cons w ws ih =>
    obtain ⟨q, hq, hfin⟩ := ih
    rw [reach_cons]
    rcases Nat.le_total w.fin (reach p.fin ws) with hle | hle
    · rw [Nat.max_eq_right hle]
      refine ⟨q, ?_, hfin⟩
      rcases List.mem_cons.1 hq with rfl | hq
      · exact List.mem_cons_self
      · exact List.mem_cons_of_mem _ (List.mem_cons_of_mem _ hq)
    · rw [Nat.max_eq_left hle]
      exact ⟨w, List.mem_cons_of_mem _ List.mem_cons_self, rfl⟩

/-! ## Rows of windows -/

theorem fin_of_isPlaced {e : Element} {p : Placed} (h : IsPlaced e p) : p.fin = e.fin := by
  rw [Placed.fin, h.offset_eq, h.size_eq, Element.fin]

theorem exists_append_of_forall₂ {α β : Type} {R : α → β → Prop} {as : List α} {bs cs : List β}
    (h : List.Forall₂ R as (bs ++ cs)) :
    ∃ as' as'', as = as' ++ as'' ∧ List.Forall₂ R as' bs ∧ List.Forall₂ R as'' cs :=
  ⟨_, _, (List.take_append_drop bs.length as).symm, List.forall₂_take_append as bs cs h,
    List.forall₂_drop_append as bs cs h⟩

/-- The groups are linked and come one behind the other; those of several elements are the unions of
the declarations, in order, and an element by itself is declared without one. -/
structure Grouped (vs : List Element) (gs : List (List Element)) (ds : List Decl) : Prop where
  ne_nil : ∀ g ∈ gs, g ≠ []
  linked : ∀ g ∈ gs, ∀ a ∈ g, ∀ b ∈ g, Linked vs a b
  before : gs.Pairwise Before
  unions : List.Forall₂ (fun g d => d.IsUnionOf g) (gs.filter (2 ≤ ·.length))
    (ds.filter Decl.isUnion)
  single : ∀ e, [e] ∈ gs → ∃ ls, e.Leaves ls ∧ ls.Sublist ds

theorem Grouped.nil (vs : List Element) : Grouped vs [] [] where
  ne_nil := nofun
  linked := nofun
  before := .nil
  unions := .nil
  single := nofun

section Row

variable {vs : List Element} {first start last : Nat} {e : Element} {p : Placed}
  {g : List Element} {ws ps rest : List Placed} {here ds : List Decl}

/-- What a window of several elements declares is a union of them. -/
theorem isUnionOf_window (hw : window p.fin ps = (ws, last, rest))
    (hplaced : List.Forall₂ IsPlaced (e :: g) (p :: ws))
    (hsorted : (p :: ps).Pairwise fun p q => p.offset ≤ q.offset)
    (hvisible : ∀ b ∈ e :: g, b.flags.hidden = false)
    {members : List Decl}
    (h : declareWindow p ws last = .ok [.union p.offset (last - p.offset) members]) :
    (Decl.union p.offset (last - p.offset) members).IsUnionOf (e :: g) := by
  have hbounds := mem_window_bounds hw hsorted
  have hlast : p.offset + (last - p.offset) = last := by
    obtain ⟨hle, hfin⟩ := hbounds p List.mem_cons_self
    have : p.offset ≤ p.fin := Nat.le_add_right _ _
    omega
  have heven : ∀ q ∈ p :: ws, q.Even := fun q hq => by
    obtain ⟨b, -, hb⟩ := exists_isPlaced_of_mem hplaced hq
    exact (leaves_of_declare b _ hb.declare_eq).2
  have hleaves := leavesAll_of_isPlaced hplaced hvisible
    fun b _ c hc => (leaves_of_declare b c hc).1
  rw [← leavesAll_of_declareWindow hw h heven, Decl.leavesAll, Decl.leavesAll, Decl.leaves,
    List.append_nil] at hleaves
  obtain ⟨q, hq, hqfin⟩ := exists_fin_eq_reach p ws
  rw [← (eq_of_window hw).2] at hqfin
  obtain ⟨b, hb, hbq⟩ := exists_isPlaced_of_mem hplaced hq
  refine .intro (fun a ha => ?_) ⟨e, List.mem_cons_self, ?_⟩ ⟨b, hb, ?_⟩ hleaves
  · obtain ⟨r, hr, har⟩ := exists_mem_of_forall₂ hplaced.flip ha
    obtain ⟨hlo, hhi⟩ := hbounds r hr
    rw [fin_of_isPlaced har] at hhi
    rw [har.offset_eq] at hlo
    exact ⟨hlo, by omega⟩
  · cases hplaced with
    | cons he _ => exact he.offset_eq.symm
  · rw [← fin_of_isPlaced hbq, hqfin, hlast]

/-- One more window in front of a row of them. -/
theorem Grouped.cons {gs : List (List Element)} (h : Grouped vs gs ds)
    (hlinked : ∀ b ∈ g, Linked vs e b) (hbefore : ∀ h ∈ gs, Before (e :: g) h)
    (hhere : g ≠ [] ∧ (∃ d, here = [d] ∧ d.isUnion = true ∧ d.IsUnionOf (e :: g)) ∨
      g = [] ∧ ∃ c, declare e = .ok c ∧ here = c.alone) :
    Grouped vs ((e :: g) :: gs) (Decl.gap first start ++ here ++ ds) := by
  have hgap : (Decl.gap first start).filter Decl.isUnion = [] :=
    Decl.filter_isUnion_of_isSingle fun d => Decl.isSingle_of_mem_gap
  have hfrom : ∀ a ∈ e :: g, Linked vs e a := List.forall_mem_cons.2 ⟨.refl, hlinked⟩
  have hds : ds.Sublist (Decl.gap first start ++ here ++ ds) := List.sublist_append_right _ _
  refine ⟨List.forall_mem_cons.2 ⟨List.cons_ne_nil _ _, h.ne_nil⟩,
    List.forall_mem_cons.2 ⟨fun a ha b hb => (hfrom a ha).symm.trans (hfrom b hb), h.linked⟩,
    List.pairwise_cons.2 ⟨hbefore, h.before⟩, ?_, fun f hf => ?_⟩
  · rw [List.filter_append, List.filter_append, hgap, List.nil_append]
    rcases hhere with ⟨hne, d, rfl, hunion, hd⟩ | ⟨rfl, c, hc, rfl⟩
    · have hseveral : 2 ≤ (e :: g).length := by
        have := List.length_pos_iff.2 hne
        rw [List.length_cons]
        omega
      rw [List.filter_cons_of_pos (by simpa using hseveral), List.filter_cons_of_pos hunion]
      exact .cons hd h.unions
    · rw [List.filter_cons_of_neg (by simp),
        Decl.filter_isUnion_of_isSingle (isSingle_of_declare hc)]
      exact h.unions
  · rcases List.mem_cons.1 hf with heq | hf
    · obtain ⟨rfl, rfl⟩ := List.cons.inj heq
      rcases hhere with ⟨hne, -⟩ | ⟨-, c, hc, rfl⟩
      · exact absurd rfl hne
      · have hsub := Decl.leavesAll_sublist_of_isSingle (isSingle_of_declare hc)
        refine ⟨_, (leaves_of_declare _ c hc).1, hsub.trans ?_⟩
        rw [List.append_assoc]
        exact (List.sublist_append_left _ _).trans (List.sublist_append_right _ _)
    · obtain ⟨ls, hleaves, hsub⟩ := h.single f hf
      exact ⟨ls, hleaves, hsub.trans hds⟩

end Row

/-- Elements in order fall into groups, each of which is declared as one. -/
theorem exists_grouped {vs : List Element} (hpos : ∀ e ∈ vs, 0 < e.totalSize)
    (hvisible : ∀ e ∈ vs, e.flags.hidden = false) {start reached : Nat} {es : List Element}
    {ps : List Placed} {ds : List Decl} (h : arrange start ps = .ok (ds, reached))
    (hplaced : List.Forall₂ IsPlaced es ps)
    (hsorted : es.Pairwise fun a b => a.offset ≤ b.offset) (hes : ∀ e ∈ es, e ∈ vs) :
    ∃ gs, gs.flatten = es ∧ Grouped vs gs ds := by
  induction hn : ps.length using Nat.strongRecOn generalizing start es ps ds reached with
  | ind n ih =>
    subst hn
    cases hplaced with
    | nil =>
      rw [arrange_nil] at h
      cases h
      exact ⟨[], rfl, .nil vs⟩
    | @cons e p es ps he htail =>
      have hsortedPs : (p :: ps).Pairwise fun p q => p.offset ≤ q.offset := by
        have hoffsets := List.pairwise_map.2 hsorted
        rw [← map_offset_of_isPlaced (.cons he htail)] at hoffsets
        exact List.pairwise_map.1 hoffsets
      have hlength := Nat.lt_succ_of_le (length_window_rest p.fin ps)
      obtain ⟨⟨ws, last, rest⟩, hw⟩ : ∃ w, window p.fin ps = w := ⟨_, rfl⟩
      rw [arrange_cons] at h
      split at h
      · cases h
      obtain ⟨here, hhere, h⟩ := bind_eq_ok.1 h
      obtain ⟨⟨ds', reached'⟩, hrest, h⟩ := bind_eq_ok.1 h
      cases h
      rw [hw] at hhere hrest hlength
      have hbehind := le_offset_of_window hw hsortedPs.of_cons
      have hbounds := mem_window_bounds hw hsortedPs
      obtain ⟨rfl, -⟩ := eq_of_window hw
      obtain ⟨g, es, rfl, hg, hes'⟩ := exists_append_of_forall₂ htail
      obtain ⟨hevs, hes⟩ := List.forall_mem_cons.1 hes
      obtain ⟨hgvs, hesvs⟩ := List.forall_mem_append.1 hes
      obtain ⟨gs, rfl, hgrouped⟩ := ih _ hlength hrest hes'
        (List.pairwise_append.1 hsorted.of_cons).2.1 hesvs rfl
      have hgvs' : ∀ b ∈ e :: g, b ∈ vs := List.forall_mem_cons.2 ⟨hevs, hgvs⟩
      refine ⟨(e :: g) :: gs, by rw [List.flatten_cons, List.cons_append], hgrouped.cons ?_ ?_ ?_⟩
      · exact linked_of_window (window_window hw) hg
          (List.pairwise_append.1 hsorted.of_cons).1 hgvs hpos
          ⟨e, hevs, .refl, (fin_of_isPlaced he).symm, fun b hb =>
            List.rel_of_pairwise_cons hsorted (List.mem_append_left _ hb)⟩
      · intro k hk a ha b hb
        obtain ⟨q, hq, haq⟩ := exists_mem_of_forall₂ (hg.cons he).flip ha
        obtain ⟨r, hr, hbr⟩ := exists_mem_of_forall₂ hes'.flip (List.mem_flatten_of_mem hk hb)
        rw [← fin_of_isPlaced haq, ← hbr.offset_eq]
        exact Nat.le_trans (hbounds q hq).2 (hbehind r hr)
      · rcases declareWindow_cases hhere with ⟨rfl, rfl⟩ | ⟨hne, members, rfl⟩
        · cases hg
          exact .inr ⟨rfl, _, he.declare_eq, rfl⟩
        · refine .inl ⟨?_, _, rfl, rfl, ?_⟩
          · rintro rfl
            cases hg
            exact hne rfl
          · exact isUnionOf_window hw (hg.cons he) hsortedPs (fun b hb => hvisible b (hgvs' b hb))
              hhere

end Layout

open Element in
/-- **Unions are the overlap groups.** When what is visible of a level has bytes, the elements fall
into groups that overlaps join. The unions of the layout are, in order, those of the groups of two
or more elements, each over the range of its group and with just its elements in it, and an element
that overlaps no other is declared beside them. -/
theorem layout_groups {es : List Element} {ds : List Decl} (h : layout es = .ok ds)
    (hpos : ∀ e ∈ visible es, 0 < e.totalSize) :
    ∃ gs, IsGrouping (visible es) gs ∧
      List.Forall₂ (fun g d => d.IsUnionOf g) (gs.filter (2 ≤ ·.length)) (ds.filter Decl.isUnion) ∧
      ∀ e rest, (visible es).Perm (e :: rest) → (∀ a ∈ rest, ¬e.Overlaps a) →
        ∃ ls, e.Leaves ls ∧ ls.Sublist ds := by
  obtain ⟨ps, reached, hplaced, harrange⟩ := Layout.arrange_of_layout h
  have hperm := sortLevel_perm (visible es)
  obtain ⟨gs, hflatten, hgrouped⟩ := Layout.exists_grouped hpos
    (fun e he => not_hidden_of_mem_visible he) harrange hplaced
    (pairwise_offset_sortLevel (visible es)) fun e he => hperm.mem_iff.1 he
  rw [← hflatten] at hperm
  have hgrouping := isGrouping_of_before hpos hperm hgrouped.ne_nil hgrouped.linked hgrouped.before
  exact ⟨gs, hgrouping, hgrouped.unions, fun e rest hes hrest =>
    hgrouped.single e (hgrouping.singleton_mem hpos hes hrest)⟩

section Example

/-- The first two registers overlap, as do the middle ones; the last is alone. -/
private def chain : List Element :=
  [.register (.plain "ALONE" 12 32), .register (.plain "HIGH" 4 32),
   .register (.plain "MIDDLE" 2 32), .register (.plain "LOW" 0 32)]

private def chainDecls : List Decl :=
  [.union 0 8
    [.struct 0 8 [.register (.plain "LOW" 0 32) 0, .reserved 4 4],
     .struct 0 8 [.reserved 0 2, .register (.plain "MIDDLE" 2 32) 2, .reserved 6 2],
     .struct 0 8 [.reserved 0 4, .register (.plain "HIGH" 4 32) 4]],
   .reserved 8 4, .register (.plain "ALONE" 12 32) 12]

open Element in
theorem layout_groups_chain :
    layout chain = .ok chainDecls ∧ (∀ e ∈ visible chain, 0 < e.totalSize) ∧
      ∃ gs, IsGrouping (visible chain) gs ∧
        List.Forall₂ (fun g d => d.IsUnionOf g) (gs.filter (2 ≤ ·.length))
          (chainDecls.filter Decl.isUnion) ∧
        ∀ e rest, (visible chain).Perm (e :: rest) → (∀ a ∈ rest, ¬e.Overlaps a) →
          ∃ ls, e.Leaves ls ∧ ls.Sublist chainDecls := by
  have h : layout chain = .ok chainDecls := by cbv
  have hpos : ∀ e ∈ visible chain, 0 < e.totalSize := by decide
  exact ⟨h, hpos, layout_groups h hpos⟩

end Example

end RegisterMap
