import RegisterMap.Element
import RegisterMap.Svd.Field

/-!
# Registers in SVD

The elements of registers and clusters, read and written. A derived register starts from the one
it names, which is looked up in the list so far, then in the lists around it.
-/

namespace RegisterMap

open Svd Xml

/-! ## Arrays and flags -/

namespace Dim

/-- What the parts of an element tell about an array so far. -/
structure Draft where
  count : Option Nat := none
  stride : Option Nat := none
  indexes : Option (List String) := none

/-- Takes over a part of an element, if it is about an array. -/
def Draft.accept? (d : Draft) (tag : String) (children : List Node) :
    Except Failure (Option Draft) :=
  match tag with
  | "dim" => do return some { d with count := some (← number "dim" children) }
  | "dimIncrement" => do return some { d with stride := some (← number "dimIncrement" children) }
  | "dimIndex" => do
    return some { d with indexes := some (← Numeral.indexes (Node.textOf children)) }
  | _ => .ok none

/-- The array, if there is one. It needs a stride, and a count or a list of indexes that agree. -/
def Draft.finish (d : Draft) : Except Failure (Option Dim) :=
  match d.stride with
  | none =>
    if d.count.isNone && d.indexes.isNone then .ok none else fail .countWithoutStride
  | some stride =>
    match d.indexes, d.count with
    | some indexes, some count =>
      if indexes.length = count then .ok (some ⟨stride, indexes⟩)
      else fail (.indexCount indexes.length count)
    | some indexes, none => .ok (some ⟨stride, indexes⟩)
    | none, some count => .ok (some (.counted stride count))
    | none, none => fail .strideWithoutCount

/-- The elements of an array. -/
def toSvd (d : Dim) : List Node :=
  [decimal "dim" d.count, hex "dimIncrement" d.stride] ++
    if d.isSequential then [] else [.leaf "dimIndex" (",".intercalate d.indexes)]

end Dim

namespace Flags

/-- The flags after an instruction, which may set one of them. -/
def step (f : Flags) (target : String) : Flags :=
  match target with
  | "isolated" => { f with isolated := true }
  | "hide" => { f with hidden := true }
  | "keepAsArray" => { f with keepAsArray := true }
  | "doDerivedMacros" => { f with derivedMacros := true }
  | _ => f

/-- The instructions that set the flags. -/
def toSvd (f : Flags) : List Node :=
  ([(f.isolated, "isolated"), (f.hidden, "hide"), (f.keepAsArray, "keepAsArray"),
    (f.derivedMacros, "doDerivedMacros")].filter Prod.fst).map fun (_, target) =>
      .instruction target none

end Flags

/-! ## Registers -/

namespace Register

/-- A register between two of the parts of its element. -/
structure Draft where
  register : Register
  dim : Dim.Draft := {}
  displayName : Option String := none
  fields : Option (List Node) := none

/-- A part of the element that is not about an array. -/
def Draft.stepElement (d : Draft) (tag : String) (children : List Node) : Except Failure Draft :=
  match tag with
  | "name" => .ok { d with register.name := Node.textOf children }
  | "displayName" => .ok { d with displayName := some (Node.textOf children) }
  | "description" => .ok { d with register.description := Node.textOf children }
  | "addressOffset" => do return { d with register.offset := ← number "addressOffset" children }
  | "size" => do return { d with register.width := ← number32 "size" children }
  | "access" => do return { d with register.access := ← Svd.access children }
  | "resetValue" => do return { d with register.resetValue := ← number "resetValue" children }
  | "resetMask" => do return { d with register.resetMask := ← number "resetMask" children }
  | "fields" =>
    if d.register.derivedFrom.isNone then .ok { d with fields := some children }
    else pass "register" "fields" d
  | tag => pass "register" tag d

/-- One more part of the element. -/
def Draft.step (d : Draft) : Node → Except Failure Draft
  | .instruction target _ => .ok { d with register.flags := d.register.flags.step target }
  | .element name _ children => do
    match ← d.dim.accept? name.base children with
    | some dim => return { d with dim }
    | none => d.stepElement name.base children
  | _ => .ok d

/-- A register with what it takes over from the one that it is derived from. -/
def derive (source : Register) : Register :=
  { source with
    derivedFrom := some (source.derivedFrom.getD source.name), fields := [], dim := none,
    flags := {} }

/-- What a register starts from: the defaults, or the first register of a name in the lists. -/
def start (scopes : List (List Element)) (d : Defaults) (attributes : List Attribute) :
    Except Failure Register :=
  match Node.attribute? "derivedFrom" attributes with
  | none =>
    .ok { name := "", offset := 0, width := d.width, access := d.access,
          resetValue := d.resetValue, resetMask := d.resetMask }
  | some source =>
    match scopes.findSome? (Element.findIn? source) with
    | some r => .ok r.derive
    | none => fail (.unresolvedDerivation source)

/-- The register with one more field, unless the field only reserves bits. -/
def addSvd (r : Register) : Node → Except Failure Register
  | .element name attributes children =>
    if name.base == "field" then do
      let f ← within (.register r.name) (Field.ofSvd r.fields attributes children)
      return if f.name == "RESERVED" then r else { r with fields := r.fields ++ [f] }
    else pass "fields" name.base r
  | _ => .ok r

/-- The register of an element after those of the lists. Without a name it takes the one that is
displayed. -/
def ofSvd (scopes : List (List Element)) (defaults : Defaults) (attributes : List Attribute)
    (children : List Node) : Except Failure Register := do
  let d ← children.foldlM Draft.step { register := ← start scopes defaults attributes }
  let name ←
    if d.register.name.isEmpty then
      match d.displayName with
      | some n => pure n
      | none => fail .unnamedRegister
    else pure d.register.name
  let dim ← within (.register name) d.dim.finish
  (d.fields.getD []).foldlM addSvd { d.register with name, dim }

/-- What the register gives to those derived from it, and what it can have by default. -/
def defaults (r : Register) : Defaults := ⟨r.width, r.access, r.resetValue, r.resetMask⟩

/-- The element of a register where the defaults are in force. A derived register starts from its
source, and so writes them all. -/
def toSvd (inForce : Defaults) (r : Register) : Node :=
  derivable "register" r.derivedFrom <|
    r.flags.toSvd ++ ((r.dim.map Dim.toSvd).getD []) ++
    [.leaf "name" r.name] ++ unlessEmpty "description" r.description ++
    [hex "addressOffset" r.offset] ++
    r.defaults.toSvd (if r.derivedFrom.isNone then some inForce else none) ++
    (if r.derivedFrom.isNone && !r.fields.isEmpty then
      [.group "fields" (r.fields.map (Field.toSvd r.access))]
    else [])

end Register

/-! ## Clusters and lists -/

namespace Cluster

/-- A cluster between two of the parts of its element. -/
structure Draft where
  head : Cluster := {}
  dim : Dim.Draft := {}

/-- One more part of the element. Those that it does not know are left to the list of members. -/
def Draft.step (d : Draft) : Node → Except Failure Draft
  | .instruction target _ => .ok { d with head.flags := d.head.flags.step target }
  | .element name _ children => do
    match ← d.dim.accept? name.base children with
    | some dim => return { d with dim }
    | none =>
      match name.base with
      | "name" => return { d with head.name := Node.textOf children }
      | "description" => return { d with head.description := Node.textOf children }
      | "addressOffset" => return { d with head.offset := ← number "addressOffset" children }
      | _ => return d
  | _ => .ok d

/-- The head of a cluster. -/
def ofSvd (attributes : List Attribute) (children : List Node) : Except Failure Cluster := do
  if (Node.attribute? "derivedFrom" attributes).isSome then fail .derivedCluster
  let d ← children.foldlM Draft.step {}
  return { d.head with dim := ← within (.cluster d.head.name) d.dim.finish }

/-- The elements of a cluster that do not stand for members. -/
def headTags : List String :=
  ["name", "description", "addressOffset", "dim", "dimIncrement", "dimIndex"]

/-- The element of a cluster around the elements of its members. -/
def toSvd (c : Cluster) (members : List Node) : Node :=
  .group "cluster" <|
    c.flags.toSvd ++ ((c.dim.map Dim.toSvd).getD []) ++ [.leaf "name" c.name] ++
    unlessEmpty "description" c.description ++ [hex "addressOffset" c.offset] ++ members

end Cluster

namespace Element

mutual

/-- The register or cluster of a node in a list, after those of the lists; none for a node that is
something else. -/
def ofSvd? (parent : String) (scopes : List (List Element)) (defaults : Defaults) :
    Node → Except Failure (Option Element)
  | .element name attributes children =>
    match name.base with
    | "register" => do
      return some (.register (← Register.ofSvd scopes defaults attributes children))
    | "cluster" => do
      let c ← Cluster.ofSvd attributes children
      let es ← within (.cluster c.name) (listOfSvd "cluster" scopes defaults [] children)
      return some (.cluster c es)
    | tag =>
      if parent == "cluster" && Cluster.headTags.contains tag then .ok none
      else pass parent tag none
  | _ => .ok none

/-- A list of registers and clusters with those of the nodes behind them. -/
def listOfSvd (parent : String) (outer : List (List Element)) (defaults : Defaults)
    (done : List Element) : List Node → Except Failure (List Element)
  | [] => .ok done
  | n :: ns => do
    let e ← ofSvd? parent (done :: outer) defaults n
    listOfSvd parent outer defaults (done ++ e.toList) ns

end

mutual

/-- The nodes of an element where the defaults are in force, none for a deleted one. -/
def toSvd (inForce : Defaults) : Element → List Node
  | register r => if r.deleted then [] else [r.toSvd inForce]
  | cluster c es => if c.deleted then [] else [c.toSvd (listToSvd inForce es)]

/-- The nodes of a list of elements. -/
def listToSvd (inForce : Defaults) : List Element → List Node
  | [] => []
  | e :: es => e.toSvd inForce ++ listToSvd inForce es

end

end Element

end RegisterMap
