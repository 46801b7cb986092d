import RegisterMap.Element
import RegisterMap.Outcome

/-!
# Layout

The members of the C structure of a register list. Elements that overlap, directly or through
others, share a window and become a union; gaps between windows become reserved members. Every
declaration carries its offset from the start of the enclosing structure and its size.
-/

namespace RegisterMap

/-- A member of a C structure. -/
inductive Decl
  /-- A register, or an array of registers that is one member. -/
  | register (r : Register) (offset : Nat)
  /-- One element of an array of registers that is not one member. -/
  | element (r : Register) (index offset : Nat)
  /-- A cluster of so many bytes, with the members of one of its elements. -/
  | cluster (c : Cluster) (offset size : Nat) (members : List Decl)
  | union (offset size : Nat) (members : List Decl)
  | struct (offset size : Nat) (members : List Decl)
  | reserved (offset size : Nat)
  deriving Repr, Inhabited

namespace Decl

def offset : Decl → Nat
  | register _ o => o
  | element _ _ o => o
  | cluster _ o _ _ => o
  | union o _ _ => o
  | struct o _ _ => o
  | reserved o _ => o

def size : Decl → Nat
  | register r _ => r.totalSize
  | element r _ _ => r.elementSize
  | cluster _ _ s _ => s
  | union _ s _ => s
  | struct _ s _ => s
  | reserved _ s => s

/-- The first byte past the declaration. -/
def fin (d : Decl) : Nat := d.offset + d.size

/-- The gap from one address to another, if there is one. -/
def gap (first last : Nat) : List Decl :=
  if first < last then [reserved first (last - first)] else []

/-- The first byte past the last of several declarations. -/
def lastFin (ds : List Decl) : Nat := (ds.getLast?.map fin).getD 0

end Decl

namespace Layout

/-- What an element declares. -/
structure Content where
  /-- As a member of its own. -/
  alone : List Decl
  /-- As a member of a union, where it is one declaration. -/
  shared : List Decl
  deriving Repr, Inhabited

/-- An element with its range, its place in the order, and what it declares, if it can. -/
structure Block where
  offset : Nat
  size : Nat
  name : String
  content : Except Failure Content

namespace Block

/-- The first byte past the block. -/
def fin (b : Block) : Nat := b.offset + b.size

/-- The block comes no later than the other: by offset, larger ones first, then by name. -/
def precedes (a b : Block) : Bool :=
  ((compare a.offset b.offset).then
    ((compare b.size a.size).then (compare a.name b.name))).isLE

end Block

/-- A block whose content is known. -/
structure Placed where
  offset : Nat
  size : Nat
  content : Content
  deriving Repr, Inhabited

namespace Placed

/-- The first byte past the block. -/
def fin (p : Placed) : Nat := p.offset + p.size

/-- The structure that fills the range up to `last` with the block alone. -/
def padded (first last : Nat) (p : Placed) : Decl :=
  .struct first (last - first)
    (Decl.gap first p.offset ++ p.content.alone ++ Decl.gap p.fin last)

end Placed

/-- The blocks at the front that begin before the end of those in front of them, that end, and the
blocks behind. -/
def window (last : Nat) : List Placed → List Placed × Nat × List Placed
  | [] => ([], last, [])
  | p :: ps =>
    if p.offset < last then
      let (ws, last, rest) := window (max last p.fin) ps
      (p :: ws, last, rest)
    else ([], last, p :: ps)

theorem length_window_rest (last : Nat) (ps : List Placed) :
    (window last ps).2.2.length ≤ ps.length := by
  fun_induction window last ps <;> simp_all
  omega

theorem length_window (last : Nat) (ps : List Placed) :
    (window last ps).1.length ≤ ps.length := by
  fun_induction window last ps <;> simp_all

/-- Declares blocks in order from `start` on, and gives the end of the last of them. Each window
is one block or a union. In a union the blocks over the whole window come first; the others lie in
a structure together, or each in one of its own when no block takes the whole window. -/
def arrange (start : Nat) (ps : List Placed) : Except Failure (List Decl × Nat) :=
  match ps with
  | [] => .ok ([], start)
  | p :: ps => do
    if p.offset < start then fail (.notMonotonic start p.offset)
    let w := window p.fin ps
    let last := w.2.1
    let size := last - p.offset
    let here ←
      if w.1.isEmpty then pure p.content.alone
      else if p.size = size then do
        let whole := w.1.takeWhile fun q => q.size == size
        let partly := w.1.drop whole.length
        let inner ←
          if partly.isEmpty then pure []
          else do
            let (ds, reached) ← arrange p.offset partly
            pure [Decl.struct p.offset size (ds ++ Decl.gap reached last)]
        pure [Decl.union p.offset size ((p :: whole).flatMap (·.content.shared) ++ inner)]
      else pure [Decl.union p.offset size ((p :: w.1).map (·.padded p.offset last))]
    let (ds, reached) ← arrange last w.2.2
    pure (Decl.gap start p.offset ++ here ++ ds, reached)
termination_by ps.length
decreasing_by
  · have := length_window_rest p.fin ps
    simp only [List.length_cons]
    omega
  · have := length_window p.fin ps
    simp only [List.length_drop, List.length_cons]
    omega

/-- Declares blocks in layout order. The first that cannot be declared decides the failure. -/
def assemble (bs : List Block) : Except Failure (List Decl) := do
  let ps ← (bs.mergeSort Block.precedes).mapM fun b => do
    return { offset := b.offset, size := b.size, content := ← b.content : Placed }
  return (← arrange 0 ps).1

/-- The elements of an array one by one, with the gaps behind them. -/
def elements (r : Register) (d : Dim) : List Decl :=
  (List.range d.count).flatMap fun i =>
    let offset := r.offset + i * d.stride
    .element r i offset :: Decl.gap (offset + r.elementSize) (offset + d.stride)

/-- What a register declares. An array that is not one member needs a placeholder in its name and
elements that do not overlap. -/
def declareRegister (r : Register) : Except Failure Content :=
  match r.dim with
  | none => .ok ⟨[.register r r.offset], [.register r r.offset]⟩
  | some d =>
    if r.isDeclaredAsArray then .ok ⟨[.register r r.offset], [.register r r.offset]⟩
    else if !Placeholder.isIn r.name || d.stride < r.elementSize then fail (.tooComplex r.name)
    else .ok ⟨elements r d, [.struct r.offset r.totalSize (elements r d)]⟩

/-- The members of one element of a cluster, filled up to the next element of an array. -/
def fillCluster (c : Cluster) (members : List Decl) : Except Failure (List Decl) :=
  match c.dim with
  | none => .ok members
  | some d =>
    if d.stride < Decl.lastFin members then fail (.tooComplex c.name)
    else .ok (members ++ Decl.gap (Decl.lastFin members) d.stride)

mutual

/-- What an element declares. -/
def declare : Element → Except Failure Content
  | .register r => declareRegister r
  | .cluster c es => do
    let members ← fillCluster c (← assemble (blocks es))
    let d := Decl.cluster c c.offset (Element.cluster c es).totalSize members
    return ⟨[d], [d]⟩

/-- The blocks of the elements that are not hidden. -/
def blocks : List Element → List Block
  | [] => []
  | e :: es =>
    if e.flags.hidden then blocks es
    else
      { offset := e.offset, size := e.totalSize, name := e.name, content := declare e } :: blocks es

end

end Layout

/-- The members of the structure of a register list. -/
def layout (es : List Element) : Except Failure (List Decl) := Layout.assemble (Layout.blocks es)

end RegisterMap
