import RegisterMap.Header.Part
import RegisterMap.Proofs.Ensures
import RegisterMap.Proofs.Layout.Leaves
import RegisterMap.Proofs.Numeral

/-!
# Paths to members

What a path of names, subscripts and dots denotes in a C structure (`Member.Denotes`), and which
members declarations become: every leaf of a layout is a member that can be named from outside, with
the identifier of its name (`Member.Represents`, `Member.Exposes`), and all names are identifiers
(`Member.names_ofDecls`).
-/

namespace RegisterMap

namespace CText

/-- The name stands for itself in C. -/
def IsIdentifier (name : String) : Prop := identifier name = name

instance (name : String) : Decidable (IsIdentifier name) :=
  inferInstanceAs (Decidable (_ = _))

theorem isIdentifier_of_plain {cs : List Char} (hplain : ∀ c ∈ cs, isForeign c = false)
    (hhead : cs.head?.any Char.isDigit = false) (hkeyword : String.ofList cs ∉ keywords) :
    IsIdentifier (.ofList cs) := by
  have hmap : (cs.map fun c => if isForeign c then '_' else c) = cs := by
    refine (List.map_congr_left fun c hc => ?_).trans (List.map_id cs)
    rw [hplain c hc]
    rfl
  unfold IsIdentifier identifier
  simp only [String.toList_ofList, hmap, hhead, List.contains_iff_mem, hkeyword, if_false,
    Bool.false_eq_true]

theorem head?_ne_of_mem_keywords {k : String} (h : k ∈ keywords) :
    k.toList.head? ≠ some '_' ∧ k.toList.head? ≠ some 'R' ∧ k.toList.getLast? ≠ some '_' := by
  revert k
  decide

/-- What a name becomes stands for itself. -/
theorem isIdentifier_identifier (name : String) : IsIdentifier (identifier name) := by
  have hplain : ∀ c ∈ name.toList.map fun c => if isForeign c then '_' else c,
      isForeign c = false := by
    intro c hc
    obtain ⟨c', -, rfl⟩ := List.mem_map.1 hc
    by_cases h : isForeign c' = true
    · rw [if_pos h]
      decide
    · rw [if_neg h]
      simpa using h
  unfold identifier
  generalize (name.toList.map fun c => if isForeign c then '_' else c) = cs at hplain
  simp only
  split
  · refine isIdentifier_of_plain (List.forall_mem_cons.2 ⟨by decide, hplain⟩) rfl ?_
    intro hkeyword
    exact (head?_ne_of_mem_keywords hkeyword).1 (by simp)
  · rename_i hhead
    split
    · have hlast : ∀ c ∈ cs ++ ['_'], isForeign c = false :=
        List.forall_mem_append.2 ⟨hplain, List.forall_mem_singleton.2 (by decide)⟩
      refine isIdentifier_of_plain hlast ?_ fun hkeyword => ?_
      · cases cs with
        | nil => decide
        | cons c cs => simpa using hhead
      · exact (head?_ne_of_mem_keywords hkeyword).2.2 (by simp)
    · rename_i hkeyword
      exact isIdentifier_of_plain hplain (by simpa using hhead)
        (mt List.contains_iff_mem.2 hkeyword)

end CText

open CText

/-- The subscript of the step, if it has one, is below the number of elements. -/
def Step.IsWithin (step : Step) (count : Option Nat) : Prop := ∀ i ∈ step.index, ∃ n ∈ count, i < n

/-- The step with the identifier of its name. -/
def Step.sanitized (step : Step) : Step := { step with name := identifier step.name }

namespace Member

mutual

/-- The members by which a structure can be entered, those of unions and structures without name
among them. -/
def exposed : Member → List Member
  | word qualifier type name count note => [word qualifier type name count note]
  | nested (.cluster name count) note ms => [nested (.cluster name count) note ms]
  | nested .union _ ms => exposedAll ms
  | nested .struct _ ms => exposedAll ms

/-- The members by which a structure with these members can be entered. -/
def exposedAll : List Member → List Member
  | [] => []
  | m :: ms => m.exposed ++ exposedAll ms

end

theorem exposedAll_append (ms ns : List Member) :
    exposedAll (ms ++ ns) = exposedAll ms ++ exposedAll ns := by
  induction ms with
  | nil => rfl
  | cons m ms ih => rw [List.cons_append, exposedAll, exposedAll, ih, List.append_assoc]

/-- The name of a member, and the number of elements of an array. -/
def declared? : Member → Option (String × Option Nat)
  | word _ _ name count _ => some (name, count)
  | nested (.cluster name count) _ _ => some (name, count)
  | nested _ _ _ => none

/-- The path leads from a structure with these members to one of its members, or to an element of
one. Subscripts are in range, and a dot stands behind a single structure only. -/
inductive Denotes : (ms : List Member) → (path : List Step) → Prop
  | member {ms m count step} (mem : m ∈ exposedAll ms)
      (declared : m.declared? = some (step.name, count)) (within : step.IsWithin count) :
      Denotes ms [step]
  | inside {ms count note inner step path}
      (mem : nested (.cluster step.name count) note inner ∈ exposedAll ms)
      (within : step.IsWithin count) (single : step.index.isSome = count.isSome)
      (rest : Denotes inner path) : Denotes ms (step :: path)

/-- A step with the name of a member leads to the member that is declared for it. -/
theorem Denotes.of_identifier {ms : List Member} {m : Member} {count : Option Nat} (step : Step)
    (hm : m ∈ exposedAll ms) (hdeclared : m.declared? = some (identifier step.name, count))
    (hwithin : step.IsWithin count) : Denotes ms [step.sanitized] :=
  .member hm hdeclared hwithin

/-- All names in the member have the property, at any depth. -/
inductive EachName (P : String → Prop) : Member → Prop
  | word {qualifier type name count note} (name_prop : P name) :
      EachName P (.word qualifier type name count note)
  | nested {kind note ms} (name_prop : ∀ name count, kind = .cluster name count → P name)
      (members : ∀ m ∈ ms, EachName P m) : EachName P (.nested kind note ms)

mutual

theorem eachName_exposed {P : String → Prop} : (m : Member) → m.EachName P →
    ∀ m' ∈ m.exposed, EachName P m'
  | .word _ _ _ _ _, h => List.forall_mem_singleton.2 h
  | .nested (.cluster _ _) _ _, h => List.forall_mem_singleton.2 h
  | .nested .union _ ms, .nested _ h => eachName_exposedAll ms h
  | .nested .struct _ ms, .nested _ h => eachName_exposedAll ms h

theorem eachName_exposedAll {P : String → Prop} : (ms : List Member) → (∀ m ∈ ms, EachName P m) →
    ∀ m ∈ exposedAll ms, EachName P m
  | [], _ => nofun
  | m :: ms, h => by
    obtain ⟨hm, hms⟩ := List.forall_mem_cons.1 h
    exact List.forall_mem_append.2 ⟨eachName_exposed m hm, eachName_exposedAll ms hms⟩

end

/-- The names on a path that denotes something are names of members. -/
theorem forall_of_denotes {P : String → Prop} {ms : List Member} {path : List Step}
    (h : Denotes ms path) (hms : ∀ m ∈ ms, EachName P m) : ∀ step ∈ path, P step.name := by
  induction h with
  | @member ms m count step hmem hdeclared _ =>
    refine List.forall_mem_singleton.2 ?_
    cases eachName_exposedAll ms hms m hmem with
    | word hname =>
      cases hdeclared
      exact hname
    | @nested kind _ _ hname _ =>
      cases kind with
      | cluster name count =>
        cases hdeclared
        exact hname _ _ rfl
      | union => cases hdeclared
      | struct => cases hdeclared
  | @inside ms count note inner step path hmem _ _ _ ih =>
    cases eachName_exposedAll ms hms _ hmem with
    | nested hname hinner => exact List.forall_mem_cons.2 ⟨hname _ _ rfl, ih hinner⟩

/-! ## Members of leaves -/

/-- The member is the one that the leaf becomes. -/
inductive Represents (bytePadding : Bool) : Decl → Member → Prop
  | scalar {r : Register} {offset qualifier type note} (dim_eq : r.dim = none) :
      Represents bytePadding (.register r offset)
        (.word qualifier type (identifier r.name) none note)
  | array {r : Register} {d : Dim} {offset qualifier type note} (dim_eq : r.dim = some d) :
      Represents bytePadding (.register r offset)
        (.word qualifier type (identifier r.baseName) (some d.count) note)
  | element {r : Register} {i offset qualifier type note} :
      Represents bytePadding (.element r i offset)
        (.word qualifier type (identifier (elementName r.name r.dim i)) none note)
  | cluster {c : Cluster} {offset size ds gaps gaps' note ms}
      (members : ofDecls bytePadding gaps ds = .ok (ms, gaps')) :
      Represents bytePadding (.cluster c offset size ds)
        (.nested (.cluster (identifier c.baseName) (c.dim.map Dim.count)) note ms)

theorem Represents.declared_register {bytePadding : Bool} {r : Register} {offset : Nat}
    {m : Member} (h : Represents bytePadding (.register r offset) m) :
    m.declared? = some (match r.dim with
      | none => (identifier r.name, none)
      | some d => (identifier r.baseName, some d.count)) := by
  cases h with
  | scalar hd =>
    rw [hd]
    rfl
  | array hd =>
    rw [hd]
    rfl

theorem Represents.declared_element {bytePadding : Bool} {r : Register} {i offset : Nat}
    {m : Member} (h : Represents bytePadding (.element r i offset) m) :
    m.declared? = some (identifier (elementName r.name r.dim i), none) := by
  cases h
  rfl

theorem Represents.exists_cluster {bytePadding : Bool} {c : Cluster} {offset size : Nat}
    {ds : List Decl} {m : Member} (h : Represents bytePadding (.cluster c offset size ds) m) :
    ∃ note ms gaps gaps', ofDecls bytePadding gaps ds = .ok (ms, gaps') ∧
      m = .nested (.cluster (identifier c.baseName) (c.dim.map Dim.count)) note ms := by
  cases h with
  | cluster hms => exact ⟨_, _, _, _, hms, rfl⟩

/-- The structure can be entered by the members of these leaves. -/
def Exposes (bytePadding : Bool) (ms : List Member) (ls : List Decl) : Prop :=
  ∀ l ∈ ls, ∃ m ∈ exposedAll ms, Represents bytePadding l m

variable {bytePadding : Bool}

theorem Exposes.append {ms ns : List Member} {ls ks : List Decl} (hl : Exposes bytePadding ms ls)
    (hk : Exposes bytePadding ns ks) : Exposes bytePadding (ms ++ ns) (ls ++ ks) := by
  unfold Exposes
  rw [exposedAll_append]
  refine List.forall_mem_append.2 ⟨fun l h => ?_, fun l h => ?_⟩
  · obtain ⟨m, hm, hrep⟩ := hl l h
    exact ⟨m, List.mem_append_left _ hm, hrep⟩
  · obtain ⟨m, hm, hrep⟩ := hk l h
    exact ⟨m, List.mem_append_right _ hm, hrep⟩

/-- The members can be entered by the leaves, and all names are identifiers. -/
structure Names (bytePadding : Bool) (ls : List Decl) (x : List Member × Nat) : Prop where
  exposes : Exposes bytePadding x.1 ls
  identifiers : ∀ m ∈ x.1, m.EachName IsIdentifier

theorem isIdentifier_reserved {mark : String} (hmark : mark.toList.all (!isForeign ·) = true)
    (gaps : Nat) : IsIdentifier s!"RESERVED{mark}{gaps}" := by
  have htext : s!"RESERVED{mark}{gaps}" =
      .ofList ("RESERVED".toList ++ mark.toList ++ (toString gaps).toList) := by
    rw [← String.toList_inj]
    simp [ToString.toString]
  have hdigits : ∀ c ∈ (toString gaps).toList, isForeign c = false := by
    intro c hc
    have hdigits : ("0123456789-".toList.erase '-').all (!isForeign ·) = true := by decide
    have hdigit := Numeral.isDigit_of_mem_toString hc
    refine Text.eq_false_of_all hdigits
      ((List.mem_erase_of_ne ?_).2 (Numeral.mem_of_isDigit hdigit))
    rintro rfl
    cases hdigit
  rw [htext]
  refine isIdentifier_of_plain ?_ (by simp) fun hkeyword => ?_
  · have hreserved : ∀ c ∈ "RESERVED".toList, isForeign c = false :=
      fun _ => Text.eq_false_of_all (by decide)
    exact List.forall_mem_append.2 ⟨List.forall_mem_append.2
      ⟨hreserved, fun _ => Text.eq_false_of_all hmark⟩, hdigits⟩
  · exact (head?_ne_of_mem_keywords hkeyword).2.1 (by simp)

theorem names_ofGap (gaps offset size : Nat) :
    Names bytePadding [] (ofGap bytePadding gaps offset size) where
  exposes := List.forall_mem_nil _
  identifiers m h := by
    unfold ofGap at h
    split at h
    · cases h
    · split at h
      · cases List.mem_singleton.1 h
        exact .word (isIdentifier_reserved (by decide) gaps)
      · split at h
        · cases List.mem_singleton.1 h
          exact .word (isIdentifier_reserved (by decide) gaps)
        · split at h <;>
          · cases List.mem_singleton.1 h
            exact .word (isIdentifier_reserved (by decide) gaps)

/-- A register becomes one word, which the leaf is. -/
theorem names_ofRegister {r : Register} {name : String} {count : Option Nat} {note : Note}
    {l : Decl} (hname : IsIdentifier name)
    (hl : ∀ qualifier type, Represents bytePadding l (.word qualifier type name count (some note)))
    (gaps : Nat) :
    Ensures (ofRegister r name count note >>= fun m => pure ([m], gaps))
      (Names bytePadding [l]) := by
  have hmember : Ensures (ofRegister r name count note) fun m =>
      ∃ qualifier type, m = .word qualifier type name count (some note) :=
    .seq fun type => .ok ⟨r.access.qualifier, type, rfl⟩
  refine hmember.bind ?_
  rintro _ ⟨qualifier, type, rfl⟩
  refine .ok ⟨List.forall_mem_singleton.2 ⟨_, List.mem_singleton_self _, hl qualifier type⟩, ?_⟩
  exact List.forall_mem_singleton.2 (.word hname)

/-- A union or structure without name has the names of its members. -/
theorem Names.nested {ls : List Decl} {x : List Member × Nat} (h : Names bytePadding ls x)
    {kind : Nesting} (hkind : kind = .union ∨ kind = .struct) (note : Note) :
    Names bytePadding ls ([.nested kind note x.1], x.2) where
  exposes l hl := by
    obtain ⟨m, hm, hrep⟩ := h.exposes l hl
    refine ⟨m, ?_, hrep⟩
    rcases hkind with rfl | rfl <;> simpa [exposedAll, exposed] using hm
  identifiers := by
    refine List.forall_mem_singleton.2 (.nested ?_ h.identifiers)
    rcases hkind with rfl | rfl <;> exact nofun

mutual

theorem names_ofDecl (gaps : Nat) : (d : Decl) →
    Ensures (ofDecl bytePadding gaps d) (Names bytePadding d.leaves)
  | .register r offset => by
    unfold ofDecl
    cases hd : r.dim with
    | none => exact names_ofRegister (isIdentifier_identifier _) (fun _ _ => .scalar hd) gaps
    | some d => exact names_ofRegister (isIdentifier_identifier _) (fun _ _ => .array hd) gaps
  | .element r i offset => by
    unfold ofDecl
    exact names_ofRegister (isIdentifier_identifier _) (fun _ _ => .element) gaps
  | .cluster c offset size ds => by
    have hinner : Ensures (ofDecls bytePadding gaps ds) fun y =>
        ofDecls bytePadding gaps ds = .ok y ∧ Names bytePadding (Decl.leavesAll ds) y :=
      fun y hy => ⟨hy, names_ofDecls gaps ds y hy⟩
    unfold ofDecl
    refine hinner.bind fun y hy => .ok ⟨?_, ?_⟩
    · exact List.forall_mem_singleton.2 ⟨_, List.mem_singleton_self _, .cluster hy.1⟩
    · refine List.forall_mem_singleton.2 (.nested (fun name count hkind => ?_) hy.2.identifiers)
      rw [← (Nesting.cluster.inj hkind).1]
      exact isIdentifier_identifier _
  | .union offset size ds => by
    unfold ofDecl
    exact (names_ofDecls gaps ds).bind fun x hx => .ok (hx.nested (.inl rfl) _)
  | .struct offset size ds => by
    unfold ofDecl
    exact (names_ofDecls gaps ds).bind fun x hx => .ok (hx.nested (.inr rfl) _)
  | .reserved offset size => .ok (names_ofGap gaps offset size)

theorem names_ofDecls (gaps : Nat) : (ds : List Decl) →
    Ensures (ofDecls bytePadding gaps ds) (Names bytePadding (Decl.leavesAll ds))
  | [] => .ok ⟨List.forall_mem_nil _, nofun⟩
  | d :: ds => by
    rw [ofDecls]
    refine (names_ofDecl gaps d).bind fun x hx => ?_
    refine (names_ofDecls x.2 ds).bind fun y hy => .ok ?_
    exact ⟨hx.exposes.append hy.exposes,
      List.forall_mem_append.2 ⟨hx.identifiers, hy.identifiers⟩⟩

end

end Member

end RegisterMap
