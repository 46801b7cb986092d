import RegisterMap.Register

/-!
# Elements

The tree of registers and clusters that a peripheral consists of. Functions on it come in pairs,
one on an element and one on a list of them.
-/

namespace RegisterMap

/-- The head of a group of elements at an offset from its owner. -/
structure Cluster where
  /-- The name of the member, with the format of its register macros after a comma. -/
  name : String := ""
  description : String := ""
  offset : Nat := 0
  dim : Option Dim := none
  flags : Flags := {}
  /-- Has been folded into another element and waits to be taken out. -/
  deleted : Bool := false
  deriving DecidableEq, Repr, Inhabited

namespace Cluster

/-- The name of the member, the part before the comma. -/
def baseName (c : Cluster) : String := Text.trim (.ofList (c.name.toList.takeWhile (· != ',')))

/-- The format of the register macros, the part after the comma. -/
def macroFormat? (c : Cluster) : Option String :=
  (Text.cut? ',' c.name.toList).map fun (_, format) => Text.trim (.ofList format)

end Cluster

/-- A register, or a cluster with the elements in it. -/
inductive Element
  | register (r : Register)
  | cluster (head : Cluster) (children : List Element)
  deriving Repr, Inhabited

namespace Element

mutual

/-- Equality of elements is decided along the tree. -/
protected def decEq : (a b : Element) → Decidable (a = b)
  | .register r, .register s =>
    if h : r = s then isTrue (h ▸ rfl) else isFalse fun e => h (Element.register.inj e)
  | .cluster c es, .cluster d fs =>
    if h : c = d then
      match Element.decEqList es fs with
      | isTrue g => isTrue (h ▸ g ▸ rfl)
      | isFalse g => isFalse fun e => g (Element.cluster.inj e).2
    else isFalse fun e => h (Element.cluster.inj e).1
  | .register _, .cluster _ _ => isFalse fun e => Element.noConfusion e
  | .cluster _ _, .register _ => isFalse fun e => Element.noConfusion e

/-- Equality of lists of elements. -/
protected def decEqList : (as bs : List Element) → Decidable (as = bs)
  | [], [] => isTrue rfl
  | a :: as, b :: bs =>
    match Element.decEq a b with
    | isTrue h =>
      match Element.decEqList as bs with
      | isTrue g => isTrue (h ▸ g ▸ rfl)
      | isFalse g => isFalse fun e => g (List.cons.inj e).2
    | isFalse h => isFalse fun e => h (List.cons.inj e).1
  | [], _ :: _ => isFalse (by simp)
  | _ :: _, [] => isFalse (by simp)

end

instance : DecidableEq Element := Element.decEq

def name : Element → String
  | register r => r.name
  | cluster c _ => c.name

def offset : Element → Nat
  | register r => r.offset
  | cluster c _ => c.offset

def dim : Element → Option Dim
  | register r => r.dim
  | cluster c _ => c.dim

def flags : Element → Flags
  | register r => r.flags
  | cluster c _ => c.flags

def deleted : Element → Bool
  | register r => r.deleted
  | cluster c _ => c.deleted

def withName (n : String) : Element → Element
  | register r => register { r with name := n }
  | cluster c es => cluster { c with name := n } es

def withOffset (o : Nat) : Element → Element
  | register r => register { r with offset := o }
  | cluster c es => cluster { c with offset := o } es

/-- The element as one that waits to be taken out. -/
def delete : Element → Element
  | register r => register { r with deleted := true }
  | cluster c es => cluster { c with deleted := true } es

@[simp] theorem name_withName (n : String) (e : Element) : (e.withName n).name = n := by
  cases e <;> rfl

@[simp] theorem offset_withName (n : String) (e : Element) : (e.withName n).offset = e.offset := by
  cases e <;> rfl

@[simp] theorem name_withOffset (o : Nat) (e : Element) : (e.withOffset o).name = e.name := by
  cases e <;> rfl

@[simp] theorem offset_withOffset (o : Nat) (e : Element) : (e.withOffset o).offset = o := by
  cases e <;> rfl

@[simp] theorem deleted_delete (e : Element) : e.delete.deleted = true := by cases e <;> rfl

/-! ## Sizes and order -/

mutual

/-- The bytes of the element with all elements of an array. -/
def totalSize : Element → Nat
  | register r => r.totalSize
  | cluster c es =>
    match c.dim with
    | some d => d.stride * d.count
    | none => extent es

/-- The furthest end of any of the elements. -/
def extent : List Element → Nat
  | [] => 0
  | e :: es => max (e.offset + e.totalSize) (extent es)

end

@[simp] theorem totalSize_withName (n : String) (e : Element) :
    (e.withName n).totalSize = e.totalSize := by
  cases e <;> rfl

@[simp] theorem totalSize_withOffset (o : Nat) (e : Element) :
    (e.withOffset o).totalSize = e.totalSize := by
  cases e <;> rfl

/-- The bytes of one element of an array, or of the element itself. -/
def elementSize : Element → Nat
  | register r => r.elementSize
  | cluster _ es => extent es

/-- The first byte past the element. -/
def fin (e : Element) : Nat := e.offset + e.totalSize

theorem fin_le_extent {e : Element} {es : List Element} (h : e ∈ es) : e.fin ≤ extent es := by
  induction es with
  | nil => cases h
  | cons f fs ih =>
    rcases List.mem_cons.1 h with rfl | h
    · exact Nat.le_max_left _ _
    · exact Nat.le_trans (ih h) (Nat.le_max_right _ _)

/-- The order in which elements are laid out: by offset, larger ones first, then by name. -/
def order (a b : Element) : Ordering :=
  (compare a.offset b.offset).then
    ((compare b.totalSize a.totalSize).then (compare a.name b.name))

/-- The element is laid out no later than the other. -/
def precedes (a b : Element) : Bool := (a.order b).isLE

/-- The elements of one level in layout order. -/
def sortLevel (es : List Element) : List Element := es.mergeSort precedes

theorem sortLevel_perm (es : List Element) : (sortLevel es).Perm es := List.mergeSort_perm es _

mutual

/-- The element with everything in it in layout order. -/
def sortWithin : Element → Element
  | register r => register r
  | cluster c es => cluster c (sortLevel (sortEach es))

/-- Each element with everything in it in layout order. -/
def sortEach : List Element → List Element
  | [] => []
  | e :: es => e.sortWithin :: sortEach es

end

theorem sortEach_eq_map (es : List Element) : sortEach es = es.map sortWithin := by
  induction es with
  | nil => rfl
  | cons e es ih => simp [sortEach, ih]

/-- The elements in layout order at every level. -/
def sortAll (es : List Element) : List Element := sortLevel (sortEach es)

/-! ## Lookup and clearing -/

mutual

/-- The first register of the name in the element. -/
def find? (name : String) : Element → Option Register
  | register r => if r.name == name then some r else none
  | cluster _ es => findIn? name es

/-- The first register of the name in the list, clusters included. -/
def findIn? (name : String) : List Element → Option Register
  | [] => none
  | e :: es => (e.find? name).or (findIn? name es)

end

mutual

theorem name_of_find? {name : String} {r : Register} :
    (e : Element) → e.find? name = some r → r.name = name
  | .register s, h => by
    unfold find? at h
    split at h
    · cases h
      simp_all
    · cases h
  | .cluster _ es, h => name_of_findIn? es h

theorem name_of_findIn? {name : String} {r : Register} :
    (es : List Element) → findIn? name es = some r → r.name = name
  | [], h => by simp [findIn?] at h
  | e :: es, h => by
    rcases Option.or_eq_some_iff.1 h with h | ⟨_, h⟩
    · exact name_of_find? e h
    · exact name_of_findIn? es h

end

mutual

/-- The element without the deleted ones in it. -/
def compact : Element → Element
  | register r => register r
  | cluster c es => cluster c (compactAll es)

/-- The elements without the deleted ones at any level. -/
def compactAll : List Element → List Element
  | [] => []
  | e :: es => if e.deleted then compactAll es else e.compact :: compactAll es

end

theorem compactAll_eq_map (es : List Element) :
    compactAll es = (es.filter (!·.deleted)).map compact := by
  induction es with
  | nil => rfl
  | cons e es ih =>
    unfold compactAll
    split <;> simp_all

mutual

/-- The element with a change made to every register in it. -/
def mapRegisters (f : Register → Register) : Element → Element
  | register r => register (f r)
  | cluster c es => cluster c (mapRegistersAll f es)

/-- The elements with a change made to every register in them. -/
def mapRegistersAll (f : Register → Register) : List Element → List Element
  | [] => []
  | e :: es => e.mapRegisters f :: mapRegistersAll f es

end

theorem mapRegistersAll_eq_map (f : Register → Register) (es : List Element) :
    mapRegistersAll f es = es.map (mapRegisters f) := by
  induction es with
  | nil => rfl
  | cons e es ih => simp [mapRegistersAll, ih]

mutual

/-- The registers of the element, in order. -/
def registers : Element → List Register
  | register r => [r]
  | cluster _ es => registersAll es

/-- The registers of the elements, in order. -/
def registersAll : List Element → List Register
  | [] => []
  | e :: es => e.registers ++ registersAll es

end

theorem registersAll_eq_flatMap (es : List Element) : registersAll es = es.flatMap registers := by
  induction es with
  | nil => rfl
  | cons e es ih => simp [registersAll, ih]

/-! ## Structural equality -/

mutual

/-- The elements are laid out alike, with the same names at the same offsets. Descriptions and
whatever the comparison passes over may differ. -/
def equivalent (cmp : Comparison) : Element → Element → Bool
  | register a, register b =>
    a.name == b.name && a.offset == b.offset && a.derivedFrom == b.derivedFrom &&
      a.flags == b.flags && a.equivalentLayout b cmp
  | cluster c es, cluster d fs =>
    c.name == d.name && c.offset == d.offset && c.dim == d.dim && c.flags == d.flags &&
      equivalentAll cmp es fs
  | _, _ => false

/-- The elements of two lists are laid out alike, one by one. -/
def equivalentAll (cmp : Comparison) : List Element → List Element → Bool
  | [], [] => true
  | a :: as, b :: bs => a.equivalent cmp b && equivalentAll cmp as bs
  | _, _ => false

end

end Element

end RegisterMap
