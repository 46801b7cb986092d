import RegisterMap.Proofs.Fields.Admission
import RegisterMap.Proofs.Reordering
import RegisterMap.Proofs.Svd.WellFormed

/-!
# Copies of sources

The reader of SVD starts a derived register from the one that it finds first, the list so far before
those around it, and leaves its fields to be looked up by name. Here it is read with the fields of
the register that it starts from instead (`Element.copyListOfSvd`). Without them this is what the
reader gives (`Element.agree_copyListOfSvd`), and each copy has the fields of a register of the tree
that is not derived (`Element.AllRooted`).
-/

namespace RegisterMap

open Svd Xml

/-! ## Registers -/

namespace Register

/-- The register without fields that it took over. -/
def stripped (r : Register) : Register :=
  if r.derivedFrom.isSome then { r with fields := [] } else r

variable {r s : Register}

theorem stripped_of_none (h : r.derivedFrom = none) : r.stripped = r := by simp [stripped, h]

theorem name_stripped (r : Register) : r.stripped.name = r.name := by
  unfold stripped
  split <;> rfl

theorem derivedFrom_stripped (r : Register) : r.stripped.derivedFrom = r.derivedFrom := by
  unfold stripped
  split <;> rfl

/-- What a register starts from does not take over any fields. -/
theorem derive_stripped (r : Register) : r.stripped.derive = r.derive := by
  unfold stripped
  split <;> rfl

/-- The register that is not derived from which this one is, if only by way of others. -/
def rootName (r : Register) : String := r.derivedFrom.getD r.name

/-- The register that the reader starts from for one with the attributes. -/
def followed? (scopes : List (List Element)) (attributes : List Attribute) : Option Register :=
  (Node.attribute? "derivedFrom" attributes).bind fun source =>
    scopes.findSome? (Element.findIn? source)

/-- The register of an element with the fields of the one that it starts from. -/
def copyOfSvd (scopes : List (List Element)) (inForce : Defaults) (attributes : List Attribute)
    (children : List Node) : Except Failure Register := do
  let r ← ofSvd scopes inForce attributes children
  match followed? scopes attributes with
  | some s => return { r with fields := s.fields }
  | none => return r

theorem start_stripped (scopes : List (List Element)) (inForce : Defaults)
    (attributes : List Attribute) :
    start (scopes.map (Element.mapRegistersAll stripped)) inForce attributes =
      start scopes inForce attributes := by
  unfold start
  split
  · rfl
  · rename_i source _
    rw [Element.findSome?_mapRegistersAll name_stripped]
    cases scopes.findSome? (Element.findIn? source) with
    | none => rfl
    | some r => exact congrArg Except.ok (derive_stripped r)

theorem ofSvd_stripped (scopes : List (List Element)) (inForce : Defaults)
    (attributes : List Attribute) (children : List Node) :
    ofSvd (scopes.map (Element.mapRegistersAll stripped)) inForce attributes children =
      ofSvd scopes inForce attributes children := by
  rw [ofSvd, start_stripped]
  rfl

/-! ### Derivation -/

theorem start_of_followed? {scopes : List (List Element)} {attributes : List Attribute}
    (h : followed? scopes attributes = some s) (inForce : Defaults) :
    start scopes inForce attributes = .ok s.derive := by
  obtain ⟨source, hname, hs⟩ := Option.bind_eq_some_iff.1 h
  rw [start, hname]
  simp only [hs]

theorem ensures_start_derivedFrom (scopes : List (List Element)) (inForce : Defaults)
    (attributes : List Attribute) : Ensures (start scopes inForce attributes) fun r =>
      r.derivedFrom = (followed? scopes attributes).map rootName := by
  cases hs : followed? scopes attributes with
  | some s =>
    rw [start_of_followed? hs]
    exact .ok rfl
  | none =>
    unfold start
    split
    · exact .ok rfl
    · rename_i source hname
      rw [followed?, hname] at hs
      rw [show scopes.findSome? (Element.findIn? source) = none from hs]
      exact .fail

theorem Draft.ensures_derivedFrom (d : Draft) (n : Node) :
    Ensures (d.step n) fun d' => d'.register.derivedFrom = d.register.derivedFrom := by
  cases n with
  | element name attributes children =>
    refine .seq fun dim => ?_
    split
    · exact .ok rfl
    · unfold stepElement
      split
      case h_1 | h_2 | h_3 => exact .ok rfl
      case h_4 | h_5 | h_6 | h_7 | h_8 => exact .seq fun _ => .ok rfl
      case h_9 =>
        split
        · exact .ok rfl
        · exact ensures_pass (P := fun d' : Draft => d'.register.derivedFrom = _) rfl _ _
      case h_10 => exact ensures_pass (P := fun d' : Draft => d'.register.derivedFrom = _) rfl _ _
  | text s => exact .ok rfl
  | instruction target value => exact .ok rfl
  | comment => exact .ok rfl

theorem ensures_addSvd_derivedFrom (r : Register) (n : Node) :
    Ensures (r.addSvd n) fun s => s.derivedFrom = r.derivedFrom := by
  cases n with
  | element name attributes children =>
    rw [addSvd]
    split
    · refine .seq fun f => .ok ?_
      split <;> rfl
    · exact ensures_pass (P := fun s : Register => s.derivedFrom = r.derivedFrom) rfl _ _
  | text s => exact .ok rfl
  | instruction target value => exact .ok rfl
  | comment => exact .ok rfl

/-- A register is derived from what the one is that it starts from. -/
theorem ensures_derivedFrom (scopes : List (List Element)) (inForce : Defaults)
    (attributes : List Attribute) (children : List Node) :
    Ensures (ofSvd scopes inForce attributes children) fun r =>
      r.derivedFrom = (followed? scopes attributes).map rootName := by
  unfold ofSvd
  refine (ensures_start_derivedFrom scopes inForce attributes).bind fun r hr => ?_
  have hparts := Ensures.foldlM_observe (fun d : Draft => d.register.derivedFrom) children
    { register := r } Draft.ensures_derivedFrom
  refine hparts.bind fun d hd => ?_
  have hend (name : String) (dim : Option Dim) :
      Ensures ((d.fields.getD []).foldlM addSvd { d.register with name, dim }) fun s =>
        s.derivedFrom = (followed? scopes attributes).map rootName :=
    (Ensures.foldlM_observe Register.derivedFrom _ _ ensures_addSvd_derivedFrom).mono
      fun s hs => hs.trans (hd.trans hr)
  dsimp only
  split
  · split
    · exact .seq fun name => .seq fun dim => hend name dim
    · exact .seq fun name => .seq fun dim => hend name dim
  · exact .seq fun name => .seq fun dim => hend name dim

/-! ### Copies -/

/-- The reader gives the copy without the fields that it took over. -/
theorem agree_copyOfSvd (scopes : List (List Element)) (inForce : Defaults)
    (attributes : List Attribute) (children : List Node) :
    Agree (fun r c => r = c.stripped)
      (ofSvd (scopes.map (Element.mapRegistersAll stripped)) inForce attributes children)
      (copyOfSvd scopes inForce attributes children) := by
  rw [ofSvd_stripped, copyOfSvd]
  have hread := (ensures_derivedFrom scopes inForce attributes children).and
    (ensures_ofSvd scopes inForce attributes children)
  cases hr : ofSvd scopes inForce attributes children with
  | error f => exact .error f
  | ok r =>
    obtain ⟨hderived, hsettled⟩ := hread r hr
    cases hs : followed? scopes attributes with
    | none =>
      rw [hs] at hderived
      exact .ok (stripped_of_none hderived).symm
    | some s =>
      rw [hs] at hderived
      refine .ok ?_
      have hfields : r.fields = [] := hsettled.bare (by simp [hderived])
      rw [stripped, if_pos (by simp [hderived]), ← hfields]

end Register

/-! ## Lists of registers and clusters -/

namespace Element

mutual

/-- The register or cluster of a node, with copies of registers for those derived from them. -/
def copyOfSvd? (parent : String) (scopes : List (List Element)) (inForce : Defaults) :
    Node → Except Failure (Option Element)
  | .element name attributes children =>
    match name.base with
    | "register" => do
      return some (.register (← Register.copyOfSvd scopes inForce attributes children))
    | "cluster" => do
      let c ← Cluster.ofSvd attributes children
      let es ← within (.cluster c.name) (copyListOfSvd "cluster" scopes inForce [] children)
      return some (.cluster c es)
    | tag =>
      if parent == "cluster" && Cluster.headTags.contains tag then .ok none
      else pass parent tag none
  | _ => .ok none

/-- A list of registers and clusters, with copies of registers for those derived from them. -/
def copyListOfSvd (parent : String) (outer : List (List Element)) (inForce : Defaults)
    (done : List Element) : List Node → Except Failure (List Element)
  | [] => .ok done
  | n :: ns => do
    let e ← copyOfSvd? parent (done :: outer) inForce n
    copyListOfSvd parent outer inForce (done ++ e.toList) ns

end

/-- The elements without the fields that derived registers took over. -/
def strippedAll (es : List Element) : List Element := mapRegistersAll Register.stripped es

theorem strippedAll_append (es fs : List Element) :
    strippedAll (es ++ fs) = strippedAll es ++ strippedAll fs := by
  simp [strippedAll, mapRegistersAll_eq_map]

mutual

theorem agree_copyOfSvd? (parent : String) (scopes : List (List Element)) (inForce : Defaults) :
    (n : Node) → Agree (fun e f => e.toList = strippedAll f.toList)
      (ofSvd? parent (scopes.map strippedAll) inForce n) (copyOfSvd? parent scopes inForce n)
  | .element name attributes children => by
    by_cases hregister : name.base = "register"
    · simp only [ofSvd?, copyOfSvd?, hregister]
      refine (Register.agree_copyOfSvd scopes inForce attributes children).bind
        fun r c _ _ hrc => .ok ?_
      rw [hrc]
      rfl
    by_cases hcluster : name.base = "cluster"
    · simp only [ofSvd?, copyOfSvd?, hcluster]
      refine (Agree.of_ensures (R := Eq) (x := Cluster.ofSvd attributes children)
        fun _ _ => rfl).bind ?_
      rintro c _ _ _ rfl
      have hlist := agree_copyListOfSvd "cluster" scopes inForce [] children
      refine (Agree.within hlist).bind fun es fs _ _ hes => .ok ?_
      rw [hes]
      rfl
    · simp only [ofSvd?, copyOfSvd?]
      split
      · exact .ok rfl
      · exact .of_ensures (ensures_pass
          (P := fun e : Option Element => e.toList = strippedAll e.toList) rfl _ _)
  | .text s => by
    simp only [ofSvd?, copyOfSvd?]
    exact .ok rfl
  | .instruction target value => by
    simp only [ofSvd?, copyOfSvd?]
    exact .ok rfl
  | .comment => by
    simp only [ofSvd?, copyOfSvd?]
    exact .ok rfl

/-- The reader gives the copies without the fields that they took over. -/
theorem agree_copyListOfSvd (parent : String) (outer : List (List Element)) (inForce : Defaults)
    (done : List Element) :
    (ns : List Node) → Agree (fun es fs => es = strippedAll fs)
      (listOfSvd parent (outer.map strippedAll) inForce (strippedAll done) ns)
      (copyListOfSvd parent outer inForce done ns)
  | [] => by
    rw [listOfSvd, copyListOfSvd]
    exact .ok rfl
  | n :: ns => by
    rw [listOfSvd, copyListOfSvd]
    refine (agree_copyOfSvd? parent (done :: outer) inForce n).bind fun e f _ _ hef => ?_
    have hrest := agree_copyListOfSvd parent outer inForce (done ++ f.toList) ns
    rwa [strippedAll_append, ← hef] at hrest

end

/-! ### Roots -/

/-- The register has the fields of the one of its root name that is not derived. -/
def IsRooted (rs : List Register) (c : Register) : Prop :=
  ∃ t ∈ rs, t.derivedFrom = none ∧ t.name = c.rootName ∧ t.fields = c.fields

def AllRooted (rs : List Register) : Prop := ∀ c ∈ rs, IsRooted rs c

variable {rs rs' : List Register} {c : Register}

theorem IsRooted.mono (h : IsRooted rs c) (hsub : rs ⊆ rs') : IsRooted rs' c := by
  obtain ⟨t, ht, hroot⟩ := h
  exact ⟨t, hsub ht, hroot⟩

theorem isRooted_of_none (hc : c ∈ rs) (h : c.derivedFrom = none) : IsRooted rs c :=
  ⟨c, hc, h, by rw [Register.rootName, h]; rfl, rfl⟩

/-- Whether registers are rooted does not depend on their order. -/
theorem AllRooted.congr (h : AllRooted rs) (hmem : ∀ c, c ∈ rs ↔ c ∈ rs') : AllRooted rs' :=
  fun c hc => (h c ((hmem c).2 hc)).mono fun d hd => (hmem d).1 hd

/-- All registers of the lists. -/
def registersOf (scopes : List (List Element)) : List Register := scopes.flatMap registersAll

theorem mem_of_followed? {scopes : List (List Element)} {attributes : List Attribute}
    {s : Register} (h : Register.followed? scopes attributes = some s) :
    s ∈ registersOf scopes := by
  obtain ⟨source, -, hfound⟩ := Option.bind_eq_some_iff.1 h
  obtain ⟨es, hes, hs⟩ := List.exists_of_findSome?_eq_some hfound
  exact List.mem_flatMap.2 ⟨es, hes, mem_registersAll_of_findIn? es hs⟩

theorem ensures_copyOfSvd {scopes : List (List Element)} (h : AllRooted (registersOf scopes))
    (inForce : Defaults) (attributes : List Attribute) (children : List Node) :
    Ensures (Register.copyOfSvd scopes inForce attributes children) fun c =>
      AllRooted (c :: registersOf scopes) := by
  unfold Register.copyOfSvd
  refine (Register.ensures_derivedFrom scopes inForce attributes children).bind fun r hr => ?_
  have hadd (c : Register) (hc : IsRooted (c :: registersOf scopes) c) :
      AllRooted (c :: registersOf scopes) :=
    List.forall_mem_cons.2 ⟨hc, fun d hd => (h d hd).mono (List.subset_cons_self ..)⟩
  cases hs : Register.followed? scopes attributes with
  | none =>
    rw [hs] at hr
    exact .ok (hadd r (isRooted_of_none List.mem_cons_self hr))
  | some s =>
    rw [hs] at hr
    refine .ok (hadd _ ?_)
    obtain ⟨t, ht, hunderived, hname, hfields⟩ := h s (mem_of_followed? hs)
    refine ⟨t, List.mem_cons_of_mem _ ht, hunderived, ?_, hfields⟩
    show t.name = r.derivedFrom.getD r.name
    rw [hname, hr]
    rfl

mutual

theorem ensures_copyOfSvd? {scopes : List (List Element)} (h : AllRooted (registersOf scopes))
    (parent : String) (inForce : Defaults) :
    (n : Node) → Ensures (copyOfSvd? parent scopes inForce n) fun e =>
      AllRooted (registersAll e.toList ++ registersOf scopes)
  | .element name attributes children => by
    rw [copyOfSvd?]
    split
    · exact (ensures_copyOfSvd h inForce attributes children).bind fun c hc => .ok hc
    · refine .seq fun c => ?_
      refine (Ensures.within
        (ensures_copyListOfSvd "cluster" scopes inForce [] h children)).bind fun es hes => .ok ?_
      simpa [registersAll, registers, registersOf] using hes
    · split
      · exact .ok h
      · exact ensures_pass (P := fun e : Option Element =>
          AllRooted (registersAll e.toList ++ registersOf scopes)) (s := none) h _ _
  | .text s => by
    simp only [copyOfSvd?]
    exact .ok h
  | .instruction target value => by
    simp only [copyOfSvd?]
    exact .ok h
  | .comment => by
    simp only [copyOfSvd?]
    exact .ok h

theorem ensures_copyListOfSvd (parent : String) (outer : List (List Element)) (inForce : Defaults)
    (done : List Element) (h : AllRooted (registersOf (done :: outer))) :
    (ns : List Node) → Ensures (copyListOfSvd parent outer inForce done ns) fun es =>
      AllRooted (registersOf (es :: outer))
  | [] => by
    rw [copyListOfSvd]
    exact .ok h
  | n :: ns => by
    rw [copyListOfSvd]
    refine (ensures_copyOfSvd? h parent inForce n).bind fun e he => ?_
    refine ensures_copyListOfSvd parent outer inForce (done ++ e.toList) (he.congr fun c => ?_) ns
    simp only [registersOf, List.flatMap_cons, registersAll_append, List.mem_append]
    tauto

end

end Element

end RegisterMap
