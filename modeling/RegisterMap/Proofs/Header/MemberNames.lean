import Mathlib.Data.List.Perm.Basic
import RegisterMap.Proofs.Header.Paths

/-!
# Names of members

The names under which a structure is entered (`Member.declaredNames`): those of the registers and
clusters that were laid out (`Decl.declaredNames`), and for each gap one of its own
(`Member.declares_ofDecls`). Declarations become members as long as each register has a type
(`Member.ofDecls_isOk_iff`).
-/

namespace RegisterMap

namespace Decl

/-- The name of the member that a leaf becomes. -/
def declaredName? : Decl → Option String
  | register r _ => some (CText.identifier (if r.dim.isSome then r.baseName else r.name))
  | element r i _ => some (CText.identifier (Member.elementName r.name r.dim i))
  | cluster c _ _ _ => some (CText.identifier c.baseName)
  | union _ _ _ | struct _ _ _ | reserved _ _ => none

/-- The names of the members that declarations become, those of gaps left out. -/
def declaredNames (ds : List Decl) : List String := (leavesAll ds).filterMap declaredName?

mutual

/-- The registers of a declaration, at any depth. -/
def registers : Decl → List Register
  | register r _ => [r]
  | element r _ _ => [r]
  | cluster _ _ _ ms => registersAll ms
  | union _ _ ms => registersAll ms
  | struct _ _ ms => registersAll ms
  | reserved _ _ => []

/-- The registers of declarations, at any depth. -/
def registersAll : List Decl → List Register
  | [] => []
  | d :: ds => d.registers ++ registersAll ds

end

theorem registersAll_eq_flatMap (ds : List Decl) : registersAll ds = ds.flatMap registers := by
  induction ds with
  | nil => rfl
  | cons d ds ih => rw [registersAll, ih, List.flatMap_cons]

theorem registersAll_append (ds es : List Decl) :
    registersAll (ds ++ es) = registersAll ds ++ registersAll es := by
  simp only [registersAll_eq_flatMap, List.flatMap_append]

mutual

theorem registersAll_leaves : (d : Decl) → registersAll d.leaves = d.registers
  | register _ _ => List.append_nil _
  | element _ _ _ => List.append_nil _
  | cluster _ _ _ _ => List.append_nil _
  | union _ _ ms => registersAll_leavesAll ms
  | struct _ _ ms => registersAll_leavesAll ms
  | reserved _ _ => rfl

/-- The registers of declarations are those of their leaves. -/
theorem registersAll_leavesAll : (ds : List Decl) → registersAll (leavesAll ds) = registersAll ds
  | [] => rfl
  | d :: ds => by
    rw [leavesAll, registersAll_append, registersAll_leaves d, registersAll_leavesAll ds,
      registersAll]

end

end Decl

namespace Member

/-- The names by which a structure with these members can be entered. -/
def declaredNames (ms : List Member) : List String :=
  (exposedAll ms).filterMap fun m => m.declared?.map Prod.fst

/-- The name of the gap with this number. -/
def gapName (bytePadding : Bool) (k : Nat) : String :=
  let mark := if bytePadding then "_" else ""
  s!"RESERVED{mark}{k}"

theorem head?_gapName (bytePadding : Bool) (k : Nat) :
    (gapName bytePadding k).toList.head? = some 'R' := by
  simp [gapName, ToString.toString]

theorem gapName_injective (bytePadding : Bool) : Function.Injective (gapName bytePadding) := by
  intro j k h
  have htext : toString j = toString k := by
    unfold gapName at h
    simpa [ToString.toString] using h
  have hread {n : Nat} (hn : n < max j k + 1) :
      Numeral.unsigned 10 (max j k + 1) (toString n).toList = .ok n :=
    Numeral.unsigned_toString hn
  have hj := hread (n := j) (by omega)
  have hk := hread (n := k) (by omega)
  rw [htext] at hj
  exact Except.ok.inj (hj.symm.trans hk)

/-- The members declare the names, and those of gaps with numbers from the first to the second
count. -/
def Declares (bytePadding : Bool) (names : List String) (gaps : Nat) (x : List Member × Nat) :
    Prop :=
  ∃ ks : List Nat, (declaredNames x.1).Perm (names ++ ks.map (gapName bytePadding)) ∧
    gaps ≤ x.2 ∧ ks.Nodup ∧ ∀ k ∈ ks, gaps ≤ k ∧ k < x.2

variable {bytePadding : Bool} {names : List String} {gaps : Nat}

theorem declaredNames_append (ms ns : List Member) :
    declaredNames (ms ++ ns) = declaredNames ms ++ declaredNames ns := by
  rw [declaredNames, exposedAll_append, List.filterMap_append]
  rfl

theorem Declares.append {names' : List String} {x y : List Member × Nat}
    (hx : Declares bytePadding names gaps x) (hy : Declares bytePadding names' x.2 y) :
    Declares bytePadding (names ++ names') gaps (x.1 ++ y.1, y.2) := by
  obtain ⟨ks, hks, hle, hdistinct, hbounds⟩ := hx
  obtain ⟨js, hjs, hle', hdistinct', hbounds'⟩ := hy
  refine ⟨ks ++ js, ?_, Nat.le_trans hle hle', ?_, List.forall_mem_append.2 ⟨?_, ?_⟩⟩
  · rw [declaredNames_append, List.map_append, List.append_assoc]
    refine (hks.append hjs).trans ?_
    rw [List.append_assoc]
    exact (List.perm_append_comm_assoc _ _ _).append_left _
  · refine List.nodup_append.2 ⟨hdistinct, hdistinct', fun k hk j hj hkj => ?_⟩
    have hlt := (hbounds k hk).2
    have hge := (hbounds' j hj).1
    omega
  · exact fun k hk => ⟨(hbounds k hk).1, Nat.lt_of_lt_of_le (hbounds k hk).2 hle'⟩
  · exact fun j hj => ⟨Nat.le_trans hle (hbounds' j hj).1, (hbounds' j hj).2⟩

/-- Members that declare names and no gap. -/
theorem Declares.of_eq {ms : List Member} (h : declaredNames ms = names) {gaps' : Nat}
    (hgaps : gaps ≤ gaps') : Declares bytePadding names gaps (ms, gaps') :=
  ⟨[], by rw [h, List.map_nil, List.append_nil], hgaps, .nil, List.forall_mem_nil _⟩

/-- A union or structure without name declares the names of its members. -/
theorem Declares.unnamed {x : List Member × Nat} (hx : Declares bytePadding names gaps x)
    {kind : Nesting} (hkind : kind = .union ∨ kind = .struct) (note : Note) :
    Declares bytePadding names gaps ([.nested kind note x.1], x.2) := by
  have hsame : declaredNames [.nested kind note x.1] = declaredNames x.1 := by
    rcases hkind with rfl | rfl <;>
      simp only [declaredNames, exposedAll, exposed, List.append_nil]
  unfold Declares
  rwa [hsame]

theorem declares_ofGap (gaps offset size : Nat) :
    Declares bytePadding [] gaps (ofGap bytePadding gaps offset size) := by
  have hone {qualifier type count} : Declares bytePadding [] gaps
      ([.word qualifier type (gapName bytePadding gaps) count none], gaps + 1) :=
    ⟨[gaps], .refl _, Nat.le_succ gaps, List.nodup_singleton gaps,
      List.forall_mem_singleton.2 ⟨Nat.le_refl gaps, Nat.lt_succ_self gaps⟩⟩
  unfold ofGap
  split
  · exact .of_eq rfl (Nat.le_refl gaps)
  · cases bytePadding with
    | true => exact hone
    | false =>
      simp only [Bool.false_eq_true, if_false]
      split
      · exact hone
      · split <;> exact hone

theorem declares_ofRegister (r : Register) (name : String) (count : Option Nat) (note : Note)
    (gaps : Nat) :
    Ensures (ofRegister r name count note >>= fun m => pure ([m], gaps))
      (Declares bytePadding [name] gaps) := by
  have hmember : Ensures (ofRegister r name count note) fun m => declaredNames [m] = [name] :=
    .seq fun type => .ok rfl
  exact hmember.bind fun m hm => .ok (.of_eq hm (Nat.le_refl gaps))

mutual

theorem declares_ofDecl (gaps : Nat) : (d : Decl) →
    Ensures (ofDecl bytePadding gaps d)
      (Declares bytePadding (d.leaves.filterMap Decl.declaredName?) gaps)
  | .register r offset => by
    unfold ofDecl
    simp only [Decl.leaves, List.filterMap_cons, Decl.declaredName?, List.filterMap_nil]
    cases r.dim with
    | none => exact declares_ofRegister r _ _ _ gaps
    | some d => exact declares_ofRegister r _ _ _ gaps
  | .element r i offset => by
    unfold ofDecl
    exact declares_ofRegister r _ _ _ gaps
  | .cluster c offset size ds => by
    unfold ofDecl
    refine (declares_ofDecls gaps ds).bind fun x hx => .ok ?_
    obtain ⟨-, -, hle, -⟩ := hx
    refine .of_eq ?_ hle
    simp only [declaredNames, exposedAll, exposed, Decl.leaves, List.append_nil,
      List.filterMap_cons, List.filterMap_nil, declared?, Option.map_some, Decl.declaredName?]
  | .union offset size ds => by
    unfold ofDecl
    exact (declares_ofDecls gaps ds).bind fun x hx => .ok (hx.unnamed (.inl rfl) _)
  | .struct offset size ds => by
    unfold ofDecl
    exact (declares_ofDecls gaps ds).bind fun x hx => .ok (hx.unnamed (.inr rfl) _)
  | .reserved offset size => .ok (declares_ofGap gaps offset size)

/-- Declarations become members that declare their names, and one for each gap. -/
theorem declares_ofDecls (gaps : Nat) : (ds : List Decl) →
    Ensures (ofDecls bytePadding gaps ds)
      (Declares bytePadding (Decl.declaredNames ds) gaps)
  | [] => by
    unfold ofDecls
    exact .ok (.of_eq rfl (Nat.le_refl gaps))
  | d :: ds => by
    rw [ofDecls]
    refine (declares_ofDecl gaps d).bind fun x hx => ?_
    refine (declares_ofDecls x.2 ds).bind fun y hy => .ok ?_
    rw [Decl.declaredNames, Decl.leavesAll, List.filterMap_append]
    exact hx.append hy

end

/-! ## Declarations that become members -/

theorem ofRegister_isOk_iff {α : Type} (r : Register) (name : String) (count : Option Nat)
    (note : Note) (f : Member → α) :
    (∃ x, (ofRegister r name count note >>= fun m => pure (f m)) = .ok x) ↔
      ∃ type, WordType.ofWidth r.width = .ok type := by
  unfold ofRegister
  cases WordType.ofWidth r.width with
  | ok type => exact ⟨fun _ => ⟨type, rfl⟩, fun _ => ⟨_, rfl⟩⟩
  | error f => exact ⟨nofun, nofun⟩

theorem bind_pure_isOk_iff {α β : Type} {x : Except Failure α} {f : α → β} :
    (∃ y, (x >>= fun a => pure (f a)) = .ok y) ↔ ∃ a, x = .ok a := by
  cases x with
  | ok a => exact ⟨fun _ => ⟨a, rfl⟩, fun _ => ⟨_, rfl⟩⟩
  | error e => exact ⟨nofun, nofun⟩

mutual

theorem ofDecl_isOk_iff (gaps : Nat) : (d : Decl) → ((∃ x, ofDecl bytePadding gaps d = .ok x) ↔
    ∀ r ∈ d.registers, ∃ type, WordType.ofWidth r.width = .ok type)
  | .register r offset => by
    unfold ofDecl
    rw [Decl.registers, List.forall_mem_singleton]
    cases r.dim with
    | none => exact ofRegister_isOk_iff r _ _ _ fun m => ([m], gaps)
    | some d => exact ofRegister_isOk_iff r _ _ _ fun m => ([m], gaps)
  | .element r i offset => by
    unfold ofDecl
    rw [Decl.registers, List.forall_mem_singleton]
    exact ofRegister_isOk_iff r _ _ _ fun m => ([m], gaps)
  | .cluster c offset size ds => by
    unfold ofDecl
    exact bind_pure_isOk_iff.trans (ofDecls_isOk_iff gaps ds)
  | .union offset size ds => by
    unfold ofDecl
    exact bind_pure_isOk_iff.trans (ofDecls_isOk_iff gaps ds)
  | .struct offset size ds => by
    unfold ofDecl
    exact bind_pure_isOk_iff.trans (ofDecls_isOk_iff gaps ds)
  | .reserved offset size => ⟨fun _ => List.forall_mem_nil _, fun _ => ⟨_, rfl⟩⟩

/-- Declarations become members when there is a type for each of their registers. -/
theorem ofDecls_isOk_iff (gaps : Nat) : (ds : List Decl) →
    ((∃ x, ofDecls bytePadding gaps ds = .ok x) ↔
      ∀ r ∈ Decl.registersAll ds, ∃ type, WordType.ofWidth r.width = .ok type)
  | [] => ⟨fun _ => List.forall_mem_nil _, fun _ => ⟨_, rfl⟩⟩
  | d :: ds => by
    rw [ofDecls, Decl.registersAll, List.forall_mem_append]
    constructor
    · rintro ⟨_, h⟩
      obtain ⟨x, hx, h⟩ := bind_eq_ok.1 h
      obtain ⟨y, hy, -⟩ := bind_eq_ok.1 h
      exact ⟨(ofDecl_isOk_iff gaps d).1 ⟨x, hx⟩, (ofDecls_isOk_iff x.2 ds).1 ⟨y, hy⟩⟩
    · rintro ⟨hd, hds⟩
      obtain ⟨x, hx⟩ := (ofDecl_isOk_iff gaps d).2 hd
      obtain ⟨y, hy⟩ := (ofDecls_isOk_iff x.2 ds).2 hds
      exact ⟨_, bind_eq_ok.2 ⟨x, hx, bind_eq_ok.2 ⟨y, hy, rfl⟩⟩⟩

end

/-- Members declare the names of what was laid out, and names of gaps. -/
theorem declaredNames_perm {ds : List Decl} {ms : List Member}
    (h : ofLayout bytePadding ds = .ok ms) : ∃ ks : List Nat, ks.Nodup ∧
      (declaredNames ms).Perm (Decl.declaredNames ds ++ ks.map (gapName bytePadding)) := by
  obtain ⟨x, hx, h⟩ := bind_eq_ok.1 h
  cases h
  obtain ⟨ks, hperm, -, hdistinct, -⟩ := declares_ofDecls 0 ds x hx
  exact ⟨ks, hdistinct, hperm⟩

theorem ofLayout_isOk_iff {ds : List Decl} : (∃ ms, ofLayout bytePadding ds = .ok ms) ↔
    ∀ r ∈ Decl.registersAll ds, ∃ type, WordType.ofWidth r.width = .ok type :=
  bind_pure_isOk_iff.trans (ofDecls_isOk_iff 0 ds)

end Member

end RegisterMap
