import Mathlib
import RegisterMap.Proofs.Arrays.Shown
import RegisterMap.Proofs.Header.Definitions
import RegisterMap.Proofs.Header.MemberNames

/-!
# Names of folded registers in a structure

An array that is one member is declared under its base name, which another register may have.
Folding does not look for it. Where the names of all arrays that could be made are apart from each
other and from those that are there (`Arrays.Site.NamesApart`), the members of a structure have
different names after folding if they had before (`Peripheral.declaredNames_foldArrays`). Otherwise
two members may get the same name (`Peripheral.declaredNames_foldArrays_taken`).
-/

namespace RegisterMap

open Element

/-! ## Levels of registers -/

/-- The leaves that the register is declared as. -/
def Register.leaves (r : Register) : List Decl :=
  match r.dim with
  | none => [.register r r.offset]
  | some d =>
    if r.isDeclaredAsArray then [.register r r.offset]
    else (List.range d.count).map fun i => .element r i (r.offset + i * d.stride)

/-- The names of the members that the register is declared as. -/
def Register.memberNames (r : Register) : List String := r.leaves.filterMap Decl.declaredName?

/-- The registers that are not hidden. -/
def shownRegisters (rs : List Register) : List Register := rs.filter (!·.flags.hidden)

/-- The names of the members that registers are declared as, those of hidden ones left out. -/
def memberNamesAll (rs : List Register) : List String :=
  (shownRegisters rs).flatMap Register.memberNames

theorem memberNamesAll_append (rs ss : List Register) :
    memberNamesAll (rs ++ ss) = memberNamesAll rs ++ memberNamesAll ss := by
  simp only [memberNamesAll, shownRegisters, List.filter_append, List.flatMap_append]

theorem memberNamesAll_perm {rs ss : List Register} (h : rs.Perm ss) :
    (memberNamesAll rs).Perm (memberNamesAll ss) :=
  (h.filter _).flatMap_right _

theorem memberNamesAll_subperm {rs ss : List Register} (h : rs.Subperm ss) :
    (memberNamesAll rs).Subperm (memberNamesAll ss) := by
  obtain ⟨ts, hperm, hsub⟩ := h
  exact ⟨memberNamesAll ts, memberNamesAll_perm hperm, (hsub.filter _).flatMap _⟩

theorem nodup_of_subperm {α : Type} {as bs : List α} (h : as.Subperm bs) (hbs : bs.Nodup) :
    as.Nodup := by
  obtain ⟨cs, hperm, hsub⟩ := h
  exact hperm.nodup_iff.1 (hbs.sublist hsub)

theorem memberNamesAll_singleton (r : Register) :
    memberNamesAll [r] = if r.flags.hidden then [] else r.memberNames := by
  cases hhidden : r.flags.hidden <;> simp [memberNamesAll, shownRegisters, hhidden]

theorem memberNamesAll_flatMap {α : Type} (f : α → List Register) (as : List α) :
    memberNamesAll (as.flatMap f) = as.flatMap fun a => memberNamesAll (f a) := by
  induction as with
  | nil => rfl
  | cons a as ih => rw [List.flatMap_cons, memberNamesAll_append, ih, List.flatMap_cons]

theorem eq_leaves_of_leaves {r : Register} {ls : List Decl} (h : Leaves (.register r) ls) :
    ls = r.leaves := by
  unfold Register.leaves
  cases h with
  | register hwhole =>
    cases hdim : r.dim with
    | none => rfl
    | some d =>
      rcases hwhole with hnone | hwhole
      · rw [hdim] at hnone
        cases hnone
      · simp only [hwhole, if_true]
  | array hdim hapart => simp only [hdim, hapart, Bool.false_eq_true, if_false]

theorem eq_of_leavesAll {rs : List Register} {ls : List Decl}
    (h : LeavesAll (rs.map .register) ls) : ls = (shownRegisters rs).flatMap Register.leaves := by
  induction rs generalizing ls with
  | nil =>
    cases h
    rfl
  | cons r rs ih =>
    unfold shownRegisters
    cases h with
    | hidden hhidden htail =>
      have hhidden : r.flags.hidden = true := hhidden
      rw [List.filter_cons_of_neg (by simpa using hhidden), ih htail]
      rfl
    | visible hvisible hhead htail =>
      have hvisible : r.flags.hidden = false := hvisible
      rw [List.filter_cons_of_pos (by simpa using hvisible), List.flatMap_cons,
        eq_leaves_of_leaves hhead, ih htail]
      rfl

/-- The leaves of a layout of registers are theirs. -/
theorem leavesAll_of_registers {es : List Element} {rs : List Register} {ds : List Decl}
    (hes : es.Perm (rs.map .register)) (h : layout es = .ok ds) :
    (Decl.leavesAll ds).Perm ((shownRegisters rs).flatMap Register.leaves) := by
  obtain ⟨ls, hls, hperm⟩ := layout_leaves h
  obtain ⟨ls', hls', hperm'⟩ := hls.perm hes
  rw [← eq_of_leavesAll hls']
  exact hperm.trans hperm'

theorem declaredNames_of_registers {es : List Element} {rs : List Register} {ds : List Decl}
    (hes : es.Perm (rs.map .register)) (h : layout es = .ok ds) :
    (Decl.declaredNames ds).Perm (memberNamesAll rs) := by
  have hnames := (leavesAll_of_registers hes h).filterMap Decl.declaredName?
  rwa [List.filterMap_flatMap] at hnames

theorem mem_registersAll_of_registers {es : List Element} {rs : List Register} {ds : List Decl}
    (hes : es.Perm (rs.map .register)) (h : layout es = .ok ds) {r : Register} :
    r ∈ Decl.registersAll ds ↔ r ∈ shownRegisters rs ∧ r.leaves ≠ [] := by
  have hleaf (v : Register) : ∀ l ∈ v.leaves, l.registers = [v] := by
    unfold Register.leaves
    split
    · exact List.forall_mem_singleton.2 rfl
    · split
      · exact List.forall_mem_singleton.2 rfl
      · exact List.forall_mem_map.2 fun _ _ => rfl
  have hmem : r ∈ Decl.registersAll ds ↔
      ∃ l ∈ (shownRegisters rs).flatMap Register.leaves, r ∈ l.registers := by
    rw [← Decl.registersAll_leavesAll, Decl.registersAll_eq_flatMap, List.mem_flatMap]
    simp only [(leavesAll_of_registers hes h).mem_iff]
  rw [hmem]
  constructor
  · rintro ⟨l, hl, hr⟩
    obtain ⟨v, hv, hl⟩ := List.mem_flatMap.1 hl
    rw [hleaf v l hl, List.mem_singleton] at hr
    subst hr
    exact ⟨hv, List.ne_nil_of_mem hl⟩
  · rintro ⟨hr, hne⟩
    obtain ⟨l, hl⟩ := List.exists_mem_of_ne_nil _ hne
    exact ⟨l, List.mem_flatMap.2 ⟨r, hr, hl⟩, by rw [hleaf r l hl]; exact List.mem_singleton_self r⟩

namespace Arrays

/-! ## Groups -/

/-- An array and the registers that it is made of. -/
structure Group where
  first : Register
  others : List Register
  array : Register

def Group.registers (g : Group) : List Register := g.first :: g.others

/-- Folding may make the array of registers of a level. -/
structure Site.Makes (site : Site) (rs : List Register) (g : Group) : Prop where
  parts : g.registers.Subperm rs
  unmarked : Placeholder.isIn g.first.name = false
  formed : ∃ s is, site.seed? g.first = some s ∧ s.Series 1 g.others is ∧ g.others ≠ [] ∧
    g.array = s.toArray (s.index :: is)

variable {site : Site} {rs : List Register} {g : Group} {groups : List Group}
  {kept : List Register} {es fs : List Element}

theorem Site.Makes.mono {ss : List Register} (h : site.Makes rs g) (hsub : rs.Subperm ss) :
    site.Makes ss g := { h with parts := h.parts.trans hsub }

theorem Site.Makes.first_mem (h : site.Makes rs g) : g.first ∈ rs :=
  h.parts.subset List.mem_cons_self

theorem Site.Makes.memberNamesAll_subset (h : site.Makes rs g) :
    memberNamesAll g.registers ⊆ memberNamesAll rs :=
  (memberNamesAll_subperm h.parts).subset

theorem Site.Makes.flags_array (h : site.Makes rs g) : g.array.flags = g.first.flags := by
  obtain ⟨s, is, hs, -, -, harray⟩ := h.formed
  obtain ⟨-, hfirst, -⟩ := Site.seed?_eq_some hs
  rw [harray, ← hfirst]
  rfl

theorem Site.Makes.width_array (h : site.Makes rs g) : g.array.width = g.first.width := by
  obtain ⟨s, is, hs, -, -, harray⟩ := h.formed
  obtain ⟨-, hfirst, -⟩ := Site.seed?_eq_some hs
  rw [harray, ← hfirst]
  rfl

theorem Site.Makes.dim_first (h : site.Makes rs g) : g.first.dim = none := by
  obtain ⟨s, is, hs, -⟩ := h.formed
  exact (isSingle_iff.1 (Site.seed?_eq_some hs).1).2.2

/-- An array that folding makes can be declared. -/
theorem Site.Makes.isDeclarable (h : site.Makes rs g) :
    (Element.register g.array).IsDeclarable := by
  obtain ⟨s, is, hs, -, -, harray⟩ := h.formed
  rw [harray]
  refine isDeclarable_register_iff.2 (.inr (.inr ⟨Site.isIn_array hs, fun d hd => ?_⟩))
  cases hd
  exact Nat.le_refl _

/-- Registers that stand in front can be taken out. -/
theorem exists_perm_append (xs : List Register)
    (h : (xs.map Element.register ++ es).Perm (rs.map .register)) :
    ∃ ss, rs.Perm (xs ++ ss) ∧ es.Perm (ss.map .register) := by
  induction xs generalizing rs with
  | nil => exact ⟨rs, .refl rs, h⟩
  | cons x xs ih =>
    have hx : x ∈ rs := by
      obtain ⟨v, hv, hxv⟩ := List.mem_map.1 (h.subset List.mem_cons_self)
      cases hxv
      exact hv
    have hrs := List.perm_cons_erase hx
    obtain ⟨ss, hss, hes⟩ := ih (h.trans (hrs.map _)).cons_inv
    exact ⟨ss, hrs.trans (hss.cons x), hes⟩

/-- Folding a level of registers makes arrays of some and keeps the others. -/
theorem Site.Folds.exists_groups (h : site.Folds es fs) (hes : es.Perm (rs.map .register)) :
    ∃ (groups : List Group) (kept : List Register),
      rs.Perm (groups.flatMap Group.registers ++ kept) ∧
      fs.Perm ((groups.map Group.array ++ kept).map .register) ∧ ∀ g ∈ groups, site.Makes rs g := by
  induction h generalizing rs with
  | nil =>
    cases List.map_eq_nil_iff.1 hes.nil_eq.symm
    exact ⟨[], [], .refl _, .refl _, List.forall_mem_nil _⟩
  | kept r _ ih =>
    obtain ⟨ss, hrs, hes⟩ := exists_perm_append [r] hes
    obtain ⟨groups, kept, hss, hfs, hmakes⟩ := ih hes
    refine ⟨groups, r :: kept, hrs.trans ((hss.cons r).trans List.perm_middle.symm), ?_,
      fun g hg => (hmakes g hg).mono (List.sublist_append_right [r] ss |>.subperm.trans
        hrs.symm.subperm)⟩
    exact (hfs.cons _).trans (List.perm_middle.symm.map Element.register)
  | inside c =>
    obtain ⟨r, -, hr⟩ := List.mem_map.1 (hes.subset List.mem_cons_self)
    cases hr
  | @array r s vs is es fs hs hr hseries hne _ ih =>
    obtain ⟨ss, hrs, hes⟩ := exists_perm_append (r :: vs) hes
    obtain ⟨groups, kept, hss, hfs, hmakes⟩ := ih hes
    refine ⟨⟨r, vs, s.toArray (s.index :: is)⟩ :: groups, kept, ?_, hfs.cons _,
      List.forall_mem_cons.2 ⟨⟨?_, hr, s, is, hs, hseries, hne, rfl⟩, fun g hg => ?_⟩⟩
    · rw [List.flatMap_cons, List.append_assoc]
      exact hrs.trans (hss.append_left _)
    · exact (List.sublist_append_left _ ss).subperm.trans hrs.symm.subperm
    · exact (hmakes g hg).mono ((List.sublist_append_right _ ss).subperm.trans hrs.symm.subperm)
  | perm hbefore hafter _ ih =>
    obtain ⟨groups, kept, hrs, hfs, hmakes⟩ := ih (hbefore.trans hes)
    exact ⟨groups, kept, hrs, hafter.symm.trans hfs, hmakes⟩

/-- The registers of groups are apart. -/
theorem pairwise_subperm (h : (groups.flatMap Group.registers).Subperm rs) :
    groups.Pairwise fun g g' => (g.registers ++ g'.registers).Subperm rs := by
  induction groups with
  | nil => exact .nil
  | cons g groups ih =>
    rw [List.flatMap_cons] at h
    refine .cons (fun g' hg' => ?_) (ih ((List.sublist_append_right _ _).subperm.trans h))
    have hone := (List.singleton_sublist.2 hg').flatMap Group.registers
    rw [List.flatMap_singleton] at hone
    exact (hone.append_left g.registers).subperm.trans h

/-! ## Names that are apart -/

/-- The arrays that folding may make of visible registers have names that are apart from each other
and from those that are there. -/
structure Site.NamesApart (site : Site) (bytePadding : Bool) (rs : List Register) : Prop where
  /-- No register has the name of a gap. Beside an array, a register in the same union is padded. -/
  gaps : ∀ k, Member.gapName bytePadding k ∉ memberNamesAll rs
  /-- The elements of an array have different names. -/
  nodup : ∀ g, site.Makes rs g → g.first.flags.hidden = false → g.array.memberNames.Nodup
  /-- An array has a name that is there only from one of its own registers. -/
  fresh : ∀ g, site.Makes rs g → g.first.flags.hidden = false → ∀ name ∈ g.array.memberNames,
    name ∈ memberNamesAll rs → name ∈ memberNamesAll g.registers
  /-- No array has the name of a gap. -/
  unreserved : ∀ g, site.Makes rs g → g.first.flags.hidden = false →
    ∀ k, Member.gapName bytePadding k ∉ g.array.memberNames
  /-- Two arrays of different registers have different names. -/
  apart : ∀ g g', site.Makes rs g → site.Makes rs g' → (g.registers ++ g'.registers).Subperm rs →
    g.first.flags.hidden = false → g'.first.flags.hidden = false →
    g.array.memberNames.Disjoint g'.array.memberNames

variable {bytePadding : Bool}

theorem memberNamesAll_groups (groups : List Group) (kept : List Register) :
    memberNamesAll (groups.map Group.array ++ kept) =
      (groups.flatMap fun g => memberNamesAll [g.array]) ++ memberNamesAll kept := by
  rw [memberNamesAll_append, ← memberNamesAll_flatMap, List.map_eq_flatMap]

theorem Site.Makes.mem_memberNamesAll (h : site.Makes rs g) {name : String} :
    name ∈ memberNamesAll [g.array] ↔
      g.first.flags.hidden = false ∧ name ∈ g.array.memberNames := by
  rw [memberNamesAll_singleton, h.flags_array]
  cases g.first.flags.hidden <;> simp

/-- Names of groups and of registers that are kept are different when those of all registers are. -/
theorem Site.NamesApart.nodup_memberNamesAll (h : site.NamesApart bytePadding rs)
    (hrs : rs.Perm (groups.flatMap Group.registers ++ kept))
    (hmakes : ∀ g ∈ groups, site.Makes rs g) (hnodup : (memberNamesAll rs).Nodup) :
    (memberNamesAll (groups.map Group.array ++ kept)).Nodup := by
  have hnames := memberNamesAll_perm hrs
  have hall := hnames.nodup_iff.1 hnodup
  rw [memberNamesAll_append] at hnames hall
  obtain ⟨-, hkept, hdisjoint⟩ := List.nodup_append'.1 hall
  rw [memberNamesAll_groups, List.nodup_append', List.nodup_flatMap]
  refine ⟨⟨fun g hg => ?_, ?_⟩, hkept, fun name hname hname' => ?_⟩
  · rw [memberNamesAll_singleton]
    split
    · exact .nil
    · rename_i hvisible
      rw [(hmakes g hg).flags_array, Bool.not_eq_true] at hvisible
      exact h.nodup g (hmakes g hg) hvisible
  · have hsub : (groups.flatMap Group.registers).Subperm rs :=
      (List.sublist_append_left _ kept).subperm.trans hrs.symm.subperm
    refine (pairwise_subperm hsub).imp_of_mem fun {g g'} hg hg' hparts name hname hname' => ?_
    obtain ⟨hvisible, hname⟩ := (hmakes g hg).mem_memberNamesAll.1 hname
    obtain ⟨hvisible', hname'⟩ := (hmakes g' hg').mem_memberNamesAll.1 hname'
    exact h.apart g g' (hmakes g hg) (hmakes g' hg') hparts hvisible hvisible' hname hname'
  · -- a register that is kept has the name of an array only as a part of it
    obtain ⟨g, hg, hname⟩ := List.mem_flatMap.1 hname
    obtain ⟨hvisible, hname⟩ := (hmakes g hg).mem_memberNamesAll.1 hname
    have hown := h.fresh g (hmakes g hg) hvisible name hname
      (hnames.mem_iff.2 (List.mem_append_right _ hname'))
    refine hdisjoint ?_ hname'
    rw [memberNamesAll_flatMap]
    exact List.mem_flatMap.2 ⟨g, hg, hown⟩

theorem Site.NamesApart.gapName_not_mem (h : site.NamesApart bytePadding rs)
    (hrs : rs.Perm (groups.flatMap Group.registers ++ kept))
    (hmakes : ∀ g ∈ groups, site.Makes rs g) (k : Nat) :
    Member.gapName bytePadding k ∉ memberNamesAll (groups.map Group.array ++ kept) := by
  rw [memberNamesAll_groups, List.mem_append, not_or]
  constructor
  · rw [List.mem_flatMap]
    rintro ⟨g, hg, hname⟩
    obtain ⟨hvisible, hname⟩ := (hmakes g hg).mem_memberNamesAll.1 hname
    exact h.unreserved g (hmakes g hg) hvisible k hname
  · intro hname
    refine h.gaps k ((memberNamesAll_perm hrs).mem_iff.2 ?_)
    rw [memberNamesAll_append]
    exact List.mem_append_right _ hname

/-! ## Base names that are free -/

/-- The name of a member that is an array which begins with the register. -/
def Seed.base (s : Seed) : String := CText.identifier (Placeholder.dropFrom s.array)

theorem Seed.Series.takes {s : Seed} {n : Nat} {vs : List Register} {is : List String}
    (h : s.Series n vs is) {k : Nat} (hk : k < vs.length) (hi : k < is.length) :
    s.takes? (n + k) (.register vs[k]) = some is[k] := by
  induction h generalizing k with
  | nil => cases hk
  | @cons n v vs i is takes _ ih =>
    cases k with
    | zero => exact takes
    | succ k =>
      rw [← Nat.succ_add_eq_add_succ]
      exact ih (Nat.lt_of_succ_lt_succ hk) (Nat.lt_of_succ_lt_succ hi)

/-- Elements of an array have the names of its registers, by a rule that restores names. -/
theorem Site.elementName_toArray (hrule : (ruleOf site.peripheral).Restores) {s : Seed}
    {r : Register} {vs : List Register} {is : List String} (hs : site.seed? r = some s)
    (hunmarked : Placeholder.isIn r.name = false) (hseries : s.Series 1 vs is) (stride : Nat) :
    (List.range (s.index :: is).length).map
        (Member.elementName s.array (some ⟨stride, s.index :: is⟩)) =
      (r :: vs).map Register.name := by
  obtain ⟨-, -, -, hof, hfirst⟩ := Site.seed?_eq_some hs
  rw [hof] at hfirst
  refine List.ext_getElem (by simp [hseries.length_eq]) fun k hk hk' => ?_
  rw [List.getElem_map, List.getElem_map, List.getElem_range]
  cases k with
  | zero => exact elementName_of_split? hrule hfirst hunmarked hfirst rfl stride
  | succ k =>
    have hvs : k < vs.length := by simpa using hk'
    have his : k < is.length := by rwa [hseries.length_eq]
    obtain ⟨v, hv, -, hnext, -⟩ := Seed.takes?_eq_some (hseries.takes hvs his)
    cases hv
    rw [hof] at hnext
    exact elementName_of_split? hrule hfirst hunmarked hnext (List.getElem?_eq_getElem his) stride

/-- An array is one member, which begins with index 0, or its members have the names of its
registers. -/
theorem Site.Makes.memberNames_array (hrule : (ruleOf site.peripheral).Restores)
    (h : site.Makes rs g) :
    (∃ s, site.seed? g.first = some s ∧ s.index = "0" ∧ g.array.memberNames = [s.base]) ∨
      g.array.memberNames = g.registers.map fun r => CText.identifier r.name := by
  obtain ⟨s, is, hs, hseries, -, harray⟩ := h.formed
  have hdim : g.array.dim = some ⟨s.register.elementSize, s.index :: is⟩ := by rw [harray]; rfl
  have hname : g.array.name = s.array := by rw [harray]; rfl
  unfold Register.memberNames Register.leaves
  cases hwhole : g.array.isDeclaredAsArray with
  | true =>
    refine .inl ⟨s, hs, ?_, ?_⟩
    · have hpacked : g.array.isPacked = true := by
        simp only [Register.isDeclaredAsArray, Register.isSimpleArray, Bool.or_eq_true,
          Bool.and_eq_true] at hwhole
        exact hwhole.elim And.right And.right
      simp only [Register.isPacked, hdim, Option.any_some, Dim.isSequential, Dim.count,
        Bool.and_eq_true, beq_iff_eq, List.length_cons, List.range_succ_eq_map, List.map_cons,
        List.cons.injEq] at hpacked
      exact hpacked.1.1
    · simp only [hdim, if_true, List.filterMap_cons, List.filterMap_nil, Decl.declaredName?,
        Option.isSome_some, Register.baseName, hname, Seed.base]
  | false =>
    refine .inr ?_
    simp only [hdim, Bool.false_eq_true, if_false, List.filterMap_map, Function.comp_def,
      Decl.declaredName?, List.filterMap_eq_map', hname, Dim.count]
    have hnames := Site.elementName_toArray hrule hs h.unmarked hseries s.register.elementSize
    have hsame := congrArg (List.map CText.identifier) hnames
    simp only [List.map_map, Function.comp_def] at hsame
    exact hsame

/-- Registers of an array that are all visible have a member each. -/
theorem Site.Makes.memberNamesAll_registers (h : site.Makes rs g)
    (halike : site.HidesAlike (rs.map .register)) (hvisible : g.first.flags.hidden = false) :
    memberNamesAll g.registers = g.registers.map fun r => CText.identifier r.name := by
  obtain ⟨s, is, hs, hseries, -⟩ := h.formed
  have hmem : ∀ r ∈ g.registers, .register r ∈ rs.map Element.register := fun r hr =>
    List.mem_map_of_mem (h.parts.subset hr)
  have hothers := halike g.first s g.others is (hmem _ List.mem_cons_self) hs hseries
    fun v hv => hmem v (List.mem_cons_of_mem _ hv)
  have hshown : ∀ r ∈ g.registers, r.flags.hidden = false ∧ r.dim = none :=
    List.forall_mem_cons.2 ⟨⟨hvisible, h.dim_first⟩, fun v hv =>
      ⟨(hothers v hv).trans hvisible, hseries.forall_mem (P := (·.dim = none))
        (fun _ _ _ htakes => (Seed.place_of_takes? htakes).1) v hv⟩⟩
  unfold memberNamesAll shownRegisters
  rw [List.filter_eq_self.2 fun r hr => by rw [(hshown r hr).1]; rfl, List.map_eq_flatMap]
  refine List.flatMap_congr fun r hr => ?_
  simp only [Register.memberNames, Register.leaves, (hshown r hr).2, List.filterMap_cons,
    Decl.declaredName?, Option.isSome_none, Bool.false_eq_true, if_false, List.filterMap_nil]

/-- The names of an array are its base name, or those of its registers. -/
theorem Site.Makes.base_or_own (h : site.Makes rs g) (hrule : (ruleOf site.peripheral).Restores)
    (halike : site.HidesAlike (rs.map .register)) (hvisible : g.first.flags.hidden = false) :
    (∃ s, site.seed? g.first = some s ∧ s.index = "0" ∧ g.array.memberNames = [s.base]) ∨
      g.array.memberNames = memberNamesAll g.registers := by
  rw [h.memberNamesAll_registers halike hvisible]
  exact h.memberNames_array hrule

/-- The base names of registers with index 0 are free, and different. -/
structure Site.BasesFree (site : Site) (bytePadding : Bool) (rs : List Register) : Prop where
  free : ∀ r ∈ rs, ∀ s, site.seed? r = some s → s.index = "0" →
    s.base ∉ memberNamesAll rs ∧ ∀ k, Member.gapName bytePadding k ≠ s.base
  different : ∀ r ∈ rs, ∀ v ∈ rs, ∀ s t, site.seed? r = some s → site.seed? v = some t →
    s.index = "0" → t.index = "0" → s.base = t.base → r = v

theorem Site.BasesFree.disjoint (h : site.BasesFree bytePadding rs) {g' : Group}
    (hrule : (ruleOf site.peripheral).Restores) (halike : site.HidesAlike (rs.map .register))
    (hnodup : (memberNamesAll rs).Nodup) (hg : site.Makes rs g) (hg' : site.Makes rs g')
    (hparts : (g.registers ++ g'.registers).Subperm rs) (hvisible : g.first.flags.hidden = false)
    (hvisible' : g'.first.flags.hidden = false) :
    g.array.memberNames.Disjoint g'.array.memberNames := by
  have hown : (memberNamesAll g.registers).Disjoint (memberNamesAll g'.registers) := by
    have hall := nodup_of_subperm (memberNamesAll_subperm hparts) hnodup
    rw [memberNamesAll_append] at hall
    exact (List.nodup_append'.1 hall).2.2
  rcases hg.base_or_own hrule halike hvisible with ⟨s, hs, hzero, hnames⟩ | hnames <;>
    rcases hg'.base_or_own hrule halike hvisible' with ⟨t, ht, hzero', hnames'⟩ | hnames' <;>
    rw [hnames, hnames']
  · -- of two registers with one base name, both would be the same
    rw [List.singleton_disjoint, List.mem_singleton]
    intro hbase
    have hsame := h.different _ hg.first_mem _ hg'.first_mem s t hs ht hzero hzero' hbase
    rw [hg.memberNamesAll_registers halike hvisible,
      hg'.memberNamesAll_registers halike hvisible'] at hown
    refine hown List.mem_cons_self ?_
    rw [hsame]
    exact List.mem_cons_self
  · rw [List.singleton_disjoint]
    exact fun hbase => (h.free _ hg.first_mem s hs hzero).1 (hg'.memberNamesAll_subset hbase)
  · rw [List.disjoint_singleton]
    exact fun hbase => (h.free _ hg'.first_mem t ht hzero').1 (hg.memberNamesAll_subset hbase)
  · exact hown

/-- It is enough that names are restored, that registers of one array are hidden together, and that
base names are free. -/
theorem Site.NamesApart.of_restores (hrule : (ruleOf site.peripheral).Restores)
    (halike : site.HidesAlike (rs.map .register)) (hnodup : (memberNamesAll rs).Nodup)
    (hgaps : ∀ k, Member.gapName bytePadding k ∉ memberNamesAll rs)
    (hbases : site.BasesFree bytePadding rs) : site.NamesApart bytePadding rs where
  gaps := hgaps
  nodup g h hvisible := by
    rcases h.base_or_own hrule halike hvisible with ⟨s, -, -, hnames⟩ | hnames <;> rw [hnames]
    · exact List.nodup_singleton _
    · exact nodup_of_subperm (memberNamesAll_subperm h.parts) hnodup
  fresh g h hvisible name hname hthere := by
    rcases h.base_or_own hrule halike hvisible with ⟨s, hs, hzero, hnames⟩ | hnames <;>
      rw [hnames] at hname
    · rw [List.mem_singleton.1 hname] at hthere
      exact absurd hthere (hbases.free _ h.first_mem s hs hzero).1
    · exact hname
  unreserved g h hvisible k hname := by
    rcases h.base_or_own hrule halike hvisible with ⟨s, hs, hzero, hnames⟩ | hnames <;>
      rw [hnames] at hname
    · exact (hbases.free _ h.first_mem s hs hzero).2 k
        (List.mem_singleton.1 hname)
    · exact hgaps k (h.memberNamesAll_subset hname)
  apart _ _ := hbases.disjoint hrule halike hnodup

end Arrays

open Arrays Header

/-- Names of members are different when those of registers are and no gap has one of them. -/
theorem Member.nodup_declaredNames_iff {bytePadding : Bool} {es : List Element}
    {rs : List Register} {ds : List Decl} {ms : List Member} (hes : es.Perm (rs.map .register))
    (hlayout : layout es = .ok ds) (hms : Member.ofLayout bytePadding ds = .ok ms)
    (hgaps : ∀ k, gapName bytePadding k ∉ memberNamesAll rs) :
    (declaredNames ms).Nodup ↔ (memberNamesAll rs).Nodup := by
  obtain ⟨ks, hks, hnames⟩ := declaredNames_perm hms
  have hregisters := declaredNames_of_registers hes hlayout
  rw [(hnames.trans (hregisters.append_right _)).nodup_iff, List.nodup_append',
    List.nodup_map_iff (gapName_injective bytePadding)]
  refine ⟨And.left, fun hnodup => ⟨hnodup, hks, fun name hname hgap => ?_⟩⟩
  obtain ⟨k, -, rfl⟩ := List.mem_map.1 hgap
  exact hgaps k hname

namespace Peripheral

/-- **Folding and names.** The members of a peripheral of registers still have different names after
folding that came to its end, if the names of arrays that it may make are apart from each other and
from those that are there. -/
theorem declaredNames_foldArrays {s : Settings} {p : Peripheral} {cmp : Comparison}
    {rs : List Register} {ms : List Member} (hp : p.derivedFrom = none)
    (hrs : p.registers = rs.map .register) (hintact : isIntactAll p.registers = true)
    (hmembers : structMembers s p = .ok ms) (hdistinct : (Member.declaredNames ms).Nodup)
    (hapart : Site.NamesApart ⟨p.name, cmp⟩ s.bytePadding rs)
    (h : (p.foldArrays cmp).failure = none) :
    ∃ ms', structMembers s (p.foldArrays cmp).state = .ok ms' ∧
      (Member.declaredNames ms').Nodup := by
  have hes : p.registers.Perm (rs.map .register) := .of_eq hrs
  obtain ⟨ds, hlayout, hms⟩ := bind_eq_ok.1 hmembers
  obtain ⟨groups, kept, hperm, hfs, hmakes⟩ :=
    (folds_foldArrays hp hintact h).exists_groups hes
  have hkept : ∀ r ∈ kept, r ∈ rs := fun r hr =>
    hperm.mem_iff.2 (List.mem_append_right _ hr)
  -- arrays can be declared, and what is kept could be before
  obtain ⟨ds', hlayout'⟩ : ∃ ds', layout (p.foldArrays cmp).state.registers = .ok ds' := by
    refine layout_isOk_iff.2 fun e he => ?_
    obtain ⟨he, hvisible⟩ := mem_visible_iff.1 he
    obtain ⟨r, hr, rfl⟩ := List.mem_map.1 (hfs.mem_iff.1 he)
    rcases List.mem_append.1 hr with hr | hr
    · obtain ⟨g, hg, rfl⟩ := List.mem_map.1 hr
      exact (hmakes g hg).isDeclarable
    · refine layout_isOk_iff.1 ⟨ds, hlayout⟩ _ (mem_visible_iff.2 ⟨?_, hvisible⟩)
      rw [hrs]
      exact List.mem_map_of_mem (hkept r hr)
  -- and they are of the widths that were there
  obtain ⟨ms', hms'⟩ : ∃ ms', Member.ofLayout s.bytePadding ds' = .ok ms' := by
    have hwidths := Member.ofLayout_isOk_iff.1 ⟨ms, hms⟩
    simp only [mem_registersAll_of_registers hes hlayout] at hwidths
    refine Member.ofLayout_isOk_iff.2 fun r hr => ?_
    obtain ⟨hr, hleaves⟩ := (mem_registersAll_of_registers hfs hlayout').1 hr
    obtain ⟨hr, hvisible⟩ := List.mem_filter.1 hr
    rcases List.mem_append.1 hr with hr | hr
    · obtain ⟨g, hg, rfl⟩ := List.mem_map.1 hr
      rw [(hmakes g hg).flags_array] at hvisible
      rw [(hmakes g hg).width_array]
      refine hwidths g.first ⟨List.mem_filter.2 ⟨(hmakes g hg).first_mem, hvisible⟩, ?_⟩
      rw [Register.leaves, (hmakes g hg).dim_first]
      exact List.cons_ne_nil _ _
    · exact hwidths r ⟨List.mem_filter.2 ⟨hkept r hr, hvisible⟩, hleaves⟩
  refine ⟨ms', bind_eq_ok.2 ⟨ds', hlayout', hms'⟩, ?_⟩
  rw [Member.nodup_declaredNames_iff hes hlayout hms hapart.gaps] at hdistinct
  rw [Member.nodup_declaredNames_iff hfs hlayout' hms' (hapart.gapName_not_mem hperm hmakes)]
  exact hapart.nodup_memberNamesAll hperm hmakes hdistinct

section Example

/-- Two counters from 0 on, which become one member, two registers from 1 on, which do not, and one
without index. -/
private def counters : List Register :=
  [.plain "T0" 0 32, .plain "T1" 4 32, .plain "D1" 8 32, .plain "D2" 12 32,
    .plain "SR" 16 32]

private def counting : Peripheral :=
  { name := "P", baseAddress := 0, registers := counters.map .register }

private theorem memberNamesAll_counters :
    memberNamesAll counters = ["T0", "T1", "D1", "D2", "SR"] := rfl

private theorem seed?_counters {r : Register} (hr : r ∈ counters) {s : Seed}
    (hs : Site.seed? ⟨"P", {}⟩ r = some s) (hzero : s.index = "0") :
    r = .plain "T0" 0 32 ∧ s.base = "T" := by
  obtain ⟨-, -, -, hrule, hsplit⟩ := Site.seed?_eq_some hs
  rw [hrule, hzero] at hsplit
  simp only [counters, List.mem_cons, List.not_mem_nil, or_false] at hr
  rcases hr with rfl | rfl | rfl | rfl | rfl
  · have h : (ruleOf "P").split? (Register.plain "T0" 0 32).name = some ("T%s", "0") := by cbv
    obtain ⟨harray, -⟩ := Prod.mk.inj (Option.some.inj (h.symm.trans hsplit))
    exact ⟨rfl, by rw [Seed.base, ← harray]; rfl⟩
  · have h : (ruleOf "P").split? (Register.plain "T1" 4 32).name = some ("T%s", "1") := by cbv
    simp [h] at hsplit
  · have h : (ruleOf "P").split? (Register.plain "D1" 8 32).name = some ("D%s", "1") := by cbv
    simp [h] at hsplit
  · have h : (ruleOf "P").split? (Register.plain "D2" 12 32).name = some ("D%s", "2") := by cbv
    simp [h] at hsplit
  · have h : (ruleOf "P").split? (Register.plain "SR" 16 32).name = none := by cbv
    simp [h] at hsplit

private theorem namesApart_counters : Site.NamesApart ⟨"P", {}⟩ false counters := by
  have hgaps (names : List String) (h : ∀ name ∈ names, name.toList.head? ≠ some 'R') (k : Nat) :
      Member.gapName false k ∉ names := fun hname =>
    h _ hname (Member.head?_gapName false k)
  refine .of_restores (ruleOf_restores (by decide) (by decide)) (.of_names ?_) ?_ ?_
    ⟨fun r hr s hs hzero => ?_, fun r hr v hv s t hs ht hzero hzero' _ => ?_⟩
  · have hvisible : ∀ r ∈ counters, r.flags.hidden = false := by decide
    intro r v _ _ _ hr hv _ _
    obtain ⟨r, hr, ⟨⟩⟩ := List.mem_map.1 hr
    obtain ⟨v, hv, ⟨⟩⟩ := List.mem_map.1 hv
    rw [hvisible r hr, hvisible v hv]
  · rw [memberNamesAll_counters]
    decide
  · rw [memberNamesAll_counters]
    exact hgaps _ (by decide)
  · rw [memberNamesAll_counters, (seed?_counters hr hs hzero).2]
    exact ⟨by decide, fun k h => hgaps ["T"] (by decide) k (by simp [h])⟩
  · rw [(seed?_counters hr hs hzero).1, (seed?_counters hv ht hzero').1]

theorem declaredNames_foldArrays_counters :
    counting.derivedFrom = none ∧ counting.registers = counters.map .register ∧
      isIntactAll counting.registers = true ∧
      (∃ ms, structMembers {} counting = .ok ms ∧
        Member.declaredNames ms = ["T0", "T1", "D1", "D2", "SR"]) ∧
      Site.NamesApart ⟨counting.name, {}⟩ false counters ∧
      (counting.foldArrays {}).failure = none ∧
      (registersAll (counting.foldArrays {}).state.registers).map Register.name =
        ["T%s", "D%s", "SR"] ∧
      ∃ ms', structMembers {} (counting.foldArrays {}).state = .ok ms' ∧
        (Member.declaredNames ms').Nodup := by
  have hfold : (counting.foldArrays {}).map (fun p =>
      (registersAll p.registers).map Register.name) =
      .pure ["T%s", "D%s", "SR"] := by cbv
  have hdone : (counting.foldArrays {}).failure = none := congrArg Outcome.failure hfold
  obtain ⟨ms, hms, hnames⟩ : ∃ ms, structMembers {} counting = .ok ms ∧
      Member.declaredNames ms = ["T0", "T1", "D1", "D2", "SR"] := by
    have hlayout : layout counting.registers = .ok
        [.register (.plain "T0" 0 32) 0, .register (.plain "T1" 4 32) 4,
          .register (.plain "D1" 8 32) 8, .register (.plain "D2" 12 32) 12,
          .register (.plain "SR" 16 32) 16] := by cbv
    rw [structMembers, hlayout]
    exact ⟨_, rfl, rfl⟩
  have hdistinct : (Member.declaredNames ms).Nodup := by
    rw [hnames]
    decide
  exact ⟨rfl, rfl, rfl, ⟨ms, hms, hnames⟩, namesApart_counters, hdone, congrArg Outcome.state hfold,
    declaredNames_foldArrays rfl rfl rfl hms hdistinct namesApart_counters hdone⟩

/-- A register with the base name of an array. -/
private def taken : Peripheral :=
  { name := "P", baseAddress := 0,
    registers :=
      [.register (.plain "T0" 0 32), .register (.plain "T1" 4 32),
        .register (.plain "T" 8 32)] }

/-- The array gets the name of a register that is there. -/
theorem declaredNames_foldArrays_taken :
    taken.derivedFrom = none ∧ isIntactAll taken.registers = true ∧
      (∃ ms, structMembers {} taken = .ok ms ∧
        Member.declaredNames ms = ["T0", "T1", "T"]) ∧
      (taken.foldArrays {}).failure = none ∧
      ∃ ms, structMembers {} (taken.foldArrays {}).state = .ok ms ∧
        Member.declaredNames ms = ["T", "T"] := by
  have hlayout : layout taken.registers = .ok
      [.register (.plain "T0" 0 32) 0, .register (.plain "T1" 4 32) 4,
        .register (.plain "T" 8 32) 8] := by cbv
  have hfolded : layout (taken.foldArrays {}).state.registers = .ok
      [.register { Register.plain "T%s" 0 32 with dim := some (.counted 4 2) } 0,
        .register (.plain "T" 8 32) 8] := by cbv
  refine ⟨rfl, rfl, ?_, by cbv, ?_⟩
  · rw [structMembers, hlayout]
    exact ⟨_, rfl, rfl⟩
  · rw [structMembers, hfolded]
    exact ⟨_, rfl, rfl⟩

end Example

end Peripheral

end RegisterMap
