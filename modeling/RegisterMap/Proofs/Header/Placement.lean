import RegisterMap.Header.Member
import RegisterMap.Proofs.Instance
import RegisterMap.Proofs.Layout.Proper

/-!
# Placement

Where C places the members of a structure under natural alignment, and how long they are:
`Member.extentsFrom`. An integer is aligned to its size, a structure or union to its most aligned
member, with its size rounded up to that alignment. Declarations record offsets that know of no
padding; the two agree when no declaration needs any (`Decl.isNatural`): `layout_placement`.
-/

namespace RegisterMap

/-- The least multiple of `a` from `n` on. -/
def roundUp (n a : Nat) : Nat := (n + a - 1) / a * a

theorem roundUp_of_dvd {n a : Nat} (ha : 0 < a) (h : a ∣ n) : roundUp n a = n := by
  obtain ⟨k, rfl⟩ := h
  have hdiv : (a * k + a - 1) / a = k := by
    rw [Nat.add_sub_assoc ha, Nat.mul_add_div ha, Nat.div_eq_of_lt (by omega), Nat.add_zero]
  rw [roundUp, hdiv, Nat.mul_comm]

/-! ## The rules of C -/

namespace Member

mutual

/-- The alignment of a member. -/
def align : Member → Nat
  | word _ type _ _ _ => type.bytes
  | nested _ _ ms => alignAll ms

/-- The alignment of the most aligned member. -/
def alignAll : List Member → Nat
  | [] => 1
  | m :: ms => max m.align (alignAll ms)

end

mutual

/-- The bytes of a member, with all elements of an array. -/
def size : Member → Nat
  | word _ type _ count _ => type.bytes * count.getD 1
  | nested .union _ ms => roundUp (widest ms) (alignAll ms)
  | nested .struct _ ms => roundUp (endFrom 0 ms) (alignAll ms)
  | nested (.cluster _ count) _ ms => roundUp (endFrom 0 ms) (alignAll ms) * count.getD 1

/-- The bytes of the largest member. -/
def widest : List Member → Nat
  | [] => 0
  | m :: ms => max m.size (widest ms)

/-- Where members end that are placed one behind the other. -/
def endFrom (start : Nat) : List Member → Nat
  | [] => start
  | m :: ms => endFrom (roundUp start m.align + m.size) ms

end

mutual

/-- The offsets and sizes of a member at an offset and of those in it, gaps left out. Offsets are
from the start of the named structure around. -/
def extents (offset : Nat) : Member → List (Nat × Nat)
  | word qualifier type name count note =>
    if note.isSome then [(offset, size (word qualifier type name count note))] else []
  | nested .union note ms => (offset, size (nested .union note ms)) :: extentsAt offset ms
  | nested .struct note ms => (offset, size (nested .struct note ms)) :: extentsFrom offset 0 ms
  | nested (.cluster name count) note ms =>
    (offset, size (nested (.cluster name count) note ms)) :: extentsFrom 0 0 ms

/-- The offsets and sizes of the members of a union. -/
def extentsAt (offset : Nat) : List Member → List (Nat × Nat)
  | [] => []
  | m :: ms => m.extents offset ++ extentsAt offset ms

/-- The offsets and sizes of members one behind the other, in a structure at `base` with `start`
bytes taken. -/
def extentsFrom (base start : Nat) : List Member → List (Nat × Nat)
  | [] => []
  | m :: ms =>
    m.extents (base + roundUp start m.align) ++
      extentsFrom base (roundUp start m.align + m.size) ms

end

end Member

/-! ## Recorded offsets -/

namespace Decl

mutual

/-- The offsets and sizes that a declaration records for itself and those in it, gaps left out. -/
def extents : Decl → List (Nat × Nat)
  | register r offset => [(offset, r.totalSize)]
  | element r _ offset => [(offset, r.elementSize)]
  | cluster _ offset size ds => (offset, size) :: extentsAll ds
  | union offset size ds => (offset, size) :: extentsAll ds
  | struct offset size ds => (offset, size) :: extentsAll ds
  | reserved _ _ => []

/-- The offsets and sizes that declarations record. -/
def extentsAll : List Decl → List (Nat × Nat)
  | [] => []
  | d :: ds => d.extents ++ extentsAll ds

end

/-- The alignment of what fills a gap. -/
def fillAlign (offset size : Nat) : Nat :=
  if size % 4 = 0 ∧ offset % 4 = 0 then 4
  else if size % 2 = 0 ∧ offset % 2 = 0 then 2
  else 1

mutual

/-- The alignment of what is declared. -/
def align : Decl → Nat
  | register r _ => r.elementSize
  | element r _ _ => r.elementSize
  | cluster _ _ _ ds => alignAll ds
  | union _ _ ds => alignAll ds
  | struct _ _ ds => alignAll ds
  | reserved offset size => fillAlign offset size

/-- The alignment of the most aligned declaration. -/
def alignAll : List Decl → Nat
  | [] => 1
  | d :: ds => max d.align (alignAll ds)

end

/-- The register is an integer of C in size, and its offset is a multiple of that. -/
def isNaturalWord (r : Register) (offset : Nat) : Bool :=
  [1, 2, 4, 8].contains r.elementSize && offset % r.elementSize == 0

mutual

/-- The declaration begins and ends at multiples of its alignment, and so do those in it. -/
def isNatural : Decl → Bool
  | register r offset => isNaturalWord r offset
  | element r _ offset => isNaturalWord r offset
  | cluster c offset size ds =>
    isNaturalAll ds && offset % alignAll ds == 0 && lastFin ds % alignAll ds == 0 &&
      lastFin ds * Dim.countOf c.dim == size
  | union offset size ds =>
    isNaturalAll ds && offset % alignAll ds == 0 && size % alignAll ds == 0
  | struct offset size ds =>
    isNaturalAll ds && offset % alignAll ds == 0 && size % alignAll ds == 0
  | reserved _ _ => true

/-- All of the declarations begin and end at multiples of their alignments. -/
def isNaturalAll : List Decl → Bool
  | [] => true
  | d :: ds => d.isNatural && isNaturalAll ds

end

theorem isNaturalAll_eq_all (ds : List Decl) : isNaturalAll ds = ds.all isNatural := by
  induction ds with
  | nil => rfl
  | cons d ds ih => rw [isNaturalAll, ih, List.all_cons]

theorem isNaturalAll_iff {ds : List Decl} :
    isNaturalAll ds = true ↔ ∀ d ∈ ds, d.isNatural = true := by
  rw [isNaturalAll_eq_all, List.all_eq_true]

/-! ### Alignments -/

/-- The sizes of the integers of C are powers of two, so that one divides another or the other way
around. -/
theorem dvd_max_of_dvd_eight {a b : Nat} (ha : a ∣ 8) (hb : b ∣ 8) :
    a ∣ max a b ∧ b ∣ max a b ∧ max a b ∣ 8 := by
  have hsmall : ∀ a ≤ 8, ∀ b ≤ 8, a ∣ 8 → b ∣ 8 → a ∣ max a b ∧ b ∣ max a b ∧ max a b ∣ 8 := by
    decide
  exact hsmall a (Nat.le_of_dvd (by decide) ha) b (Nat.le_of_dvd (by decide) hb) ha hb

theorem fillAlign_dvd (offset size : Nat) :
    fillAlign offset size ∣ 8 ∧ fillAlign offset size ∣ offset ∧ fillAlign offset size ∣ size := by
  unfold fillAlign
  split
  · exact ⟨by decide, by omega, by omega⟩
  · split
    · exact ⟨by decide, by omega, by omega⟩
    · exact ⟨Nat.one_dvd _, Nat.one_dvd _, Nat.one_dvd _⟩

theorem isNaturalWord_iff {r : Register} {offset : Nat} :
    isNaturalWord r offset = true ↔ r.elementSize ∈ [1, 2, 4, 8] ∧ r.elementSize ∣ offset := by
  rw [isNaturalWord, Bool.and_eq_true, List.contains_iff_mem, beq_iff_eq, Nat.dvd_iff_mod_eq_zero]

theorem elementSize_dvd_eight {r : Register} {offset : Nat} (h : isNaturalWord r offset = true) :
    r.elementSize ∣ 8 := by
  have hall : ∀ n ∈ [1, 2, 4, 8], n ∣ 8 := by decide
  exact hall _ (isNaturalWord_iff.1 h).1

mutual

theorem align_dvd_eight : (d : Decl) → d.isNatural = true → d.align ∣ 8
  | .register _ _, h => elementSize_dvd_eight h
  | .element _ _ _, h => elementSize_dvd_eight h
  | .cluster _ _ _ ds, h => by
    simp only [isNatural, Bool.and_eq_true] at h
    exact alignAll_dvd_eight ds h.1.1.1
  | .union _ _ ds, h => by
    simp only [isNatural, Bool.and_eq_true] at h
    exact alignAll_dvd_eight ds h.1.1
  | .struct _ _ ds, h => by
    simp only [isNatural, Bool.and_eq_true] at h
    exact alignAll_dvd_eight ds h.1.1
  | .reserved offset size, _ => (fillAlign_dvd offset size).1

theorem alignAll_dvd_eight : (ds : List Decl) → isNaturalAll ds = true → alignAll ds ∣ 8
  | [], _ => Nat.one_dvd 8
  | d :: ds, h => by
    rw [isNaturalAll, Bool.and_eq_true] at h
    exact (dvd_max_of_dvd_eight (align_dvd_eight d h.1) (alignAll_dvd_eight ds h.2)).2.2

end

theorem align_dvd_alignAll {d : Decl} {ds : List Decl} (h : isNaturalAll ds = true) (hd : d ∈ ds) :
    d.align ∣ alignAll ds := by
  induction ds with
  | nil => cases hd
  | cons e ds ih =>
    rw [isNaturalAll, Bool.and_eq_true] at h
    obtain ⟨he, hds, -⟩ :=
      dvd_max_of_dvd_eight (align_dvd_eight e h.1) (alignAll_dvd_eight ds h.2)
    rcases List.mem_cons.1 hd with rfl | hd
    · exact he
    · exact Nat.dvd_trans (ih h.2 hd) hds

theorem align_dvd_offset {d : Decl} (h : d.isNatural = true) : d.align ∣ d.offset := by
  cases d with
  | register r offset => exact (isNaturalWord_iff.1 h).2
  | element r _ offset => exact (isNaturalWord_iff.1 h).2
  | cluster =>
    simp only [isNatural, Bool.and_eq_true, beq_iff_eq] at h
    exact Nat.dvd_of_mod_eq_zero h.1.1.2
  | union =>
    simp only [isNatural, Bool.and_eq_true, beq_iff_eq] at h
    exact Nat.dvd_of_mod_eq_zero h.1.2
  | struct =>
    simp only [isNatural, Bool.and_eq_true, beq_iff_eq] at h
    exact Nat.dvd_of_mod_eq_zero h.1.2
  | reserved offset size => exact (fillAlign_dvd offset size).2.1

end Decl

/-! ## Members of natural declarations -/

namespace Member

/-- C gives the member the alignment, the size and the extents that the declaration records. -/
structure Matches (d : Decl) (m : Member) : Prop where
  align_eq : m.align = d.align
  size_eq : m.size = d.size
  extents_eq : m.extents d.offset = d.extents

theorem alignAll_of_matches {ds : List Decl} {ms : List Member} (h : List.Forall₂ Matches ds ms) :
    alignAll ms = Decl.alignAll ds := by
  induction h with
  | nil => rfl
  | cons hd _ ih => rw [alignAll, Decl.alignAll, hd.align_eq, ih]

/-- Members that follow each other need no padding when the declarations are aligned. -/
theorem extentsFrom_of_tiles {base start stop : Nat} {ds : List Decl} {ms : List Member}
    (h : List.Forall₂ Matches ds ms) (htiles : Decl.Tiles (base + start) ds (base + stop))
    (hnat : ∀ d ∈ ds, d.isNatural = true) (hbase : ∀ d ∈ ds, d.align ∣ base) :
    extentsFrom base start ms = Decl.extentsAll ds ∧ endFrom start ms = stop := by
  induction h generalizing start with
  | nil => exact ⟨rfl, Nat.add_left_cancel htiles⟩
  | @cons d m ds ms hd _ ih =>
    obtain ⟨hoffset, htiles⟩ := htiles
    obtain ⟨hdnat, hnat⟩ := List.forall_mem_cons.1 hnat
    obtain ⟨hdbase, hbase⟩ := List.forall_mem_cons.1 hbase
    have hstart : d.align ∣ start := by
      have hdvd := Decl.align_dvd_offset hdnat
      rw [hoffset] at hdvd
      exact (Nat.dvd_add_right hdbase).1 hdvd
    have hpos : 0 < d.align := Nat.pos_of_dvd_of_pos (Decl.align_dvd_eight d hdnat) (by decide)
    have hround : roundUp start m.align = start := by
      rw [hd.align_eq]
      exact roundUp_of_dvd hpos hstart
    have hfin : d.fin = base + (start + m.size) := by
      rw [Decl.fin, hoffset, hd.size_eq, Nat.add_assoc]
    rw [hfin] at htiles
    obtain ⟨hextents, hend⟩ := ih htiles hnat hbase
    refine ⟨?_, ?_⟩
    · rw [extentsFrom, Decl.extentsAll, hround, ← hoffset, hd.extents_eq, hextents]
    · rw [endFrom, hround, hend]

theorem extentsAt_of_spans {offset size : Nat} {ds : List Decl} {ms : List Member}
    (h : List.Forall₂ Matches ds ms) (hspans : ∀ d ∈ ds, d.offset = offset ∧ d.size = size) :
    extentsAt offset ms = Decl.extentsAll ds := by
  induction h with
  | nil => rfl
  | @cons d m ds ms hd _ ih =>
    obtain ⟨⟨hoffset, -⟩, hspans⟩ := List.forall_mem_cons.1 hspans
    rw [extentsAt, Decl.extentsAll, ← hd.extents_eq, hoffset, ih hspans]

theorem widest_le_of_spans {offset size : Nat} {ds : List Decl} {ms : List Member}
    (h : List.Forall₂ Matches ds ms) (hspans : ∀ d ∈ ds, d.offset = offset ∧ d.size = size) :
    widest ms ≤ size := by
  induction h with
  | nil => exact Nat.zero_le _
  | @cons d m ds ms hd _ ih =>
    obtain ⟨⟨-, hsize⟩, hspans⟩ := List.forall_mem_cons.1 hspans
    exact Nat.max_le.2 ⟨Nat.le_of_eq (hd.size_eq.trans hsize), ih hspans⟩

theorem widest_of_spans {offset size : Nat} {ds : List Decl} {ms : List Member}
    (h : List.Forall₂ Matches ds ms) (hspans : ∀ d ∈ ds, d.offset = offset ∧ d.size = size)
    (hne : ds ≠ []) : widest ms = size := by
  apply Nat.le_antisymm (widest_le_of_spans h hspans)
  cases h with
  | nil => exact absurd rfl hne
  | cons hd _ =>
    rw [← (hspans _ List.mem_cons_self).2, ← hd.size_eq, widest]
    exact Nat.le_max_left _ _

/-- A register of natural size has an integer of C of that size. -/
theorem exists_ofWidth {r : Register} {offset : Nat} (h : Decl.isNaturalWord r offset = true) :
    ∃ t, WordType.ofWidth r.width = .ok t ∧ t.bytes = r.elementSize := by
  have hsize := (Decl.isNaturalWord_iff.1 h).1
  have hrounded : r.elementSize = (r.width + 7) / 8 ∨ r.elementSize = 0 := by
    unfold Register.elementSize Bits.bytes
    split
    · exact .inl rfl
    · exact .inr rfl
  simp only [List.mem_cons, List.not_mem_nil, or_false] at hsize
  unfold WordType.ofWidth
  rw [if_neg (by omega)]
  rcases hsize with hsize | hsize | hsize | hsize
  · exact ⟨.word8, by rw [if_pos (by omega)], hsize.symm⟩
  · exact ⟨.word16, by rw [if_neg (by omega), if_pos (by omega)], hsize.symm⟩
  · exact ⟨.word32, by rw [if_neg (by omega), if_neg (by omega), if_pos (by omega)], hsize.symm⟩
  · refine ⟨.word64, ?_, hsize.symm⟩
    rw [if_neg (by omega), if_neg (by omega), if_neg (by omega), if_pos (by omega)]

/-- The elements of an array that is one member follow each other. -/
theorem totalSize_of_isDeclaredAsArray {r : Register} {d : Dim} (hd : r.dim = some d)
    (h : r.isDeclaredAsArray = true) : r.totalSize = r.elementSize * d.count := by
  have hpacked : r.isPacked = true := by
    rcases (Bool.or_eq_true _ _).mp h with h | h
    · exact ((Bool.and_eq_true _ _).mp h).2
    · exact ((Bool.and_eq_true _ _).mp h).2
  rw [Register.isPacked, hd, Option.any_some, Bool.and_eq_true, beq_iff_eq] at hpacked
  simp only [Register.totalSize, hd, hpacked.2]

/-- The member can be written and matches the declaration. -/
def Realizes (d : Decl) : Prop :=
  ∀ gaps, ∃ m gaps', ofDecl false gaps d = .ok ([m], gaps') ∧ Matches d m

theorem exists_ofDecls {ds : List Decl} (h : ∀ d ∈ ds, Realizes d) (gaps : Nat) :
    ∃ ms gaps', ofDecls false gaps ds = .ok (ms, gaps') ∧ List.Forall₂ Matches ds ms := by
  induction ds generalizing gaps with
  | nil => exact ⟨[], gaps, rfl, .nil⟩
  | cons d ds ih =>
    obtain ⟨hd, hds⟩ := List.forall_mem_cons.1 h
    obtain ⟨m, gaps₁, hm, hmatch⟩ := hd gaps
    obtain ⟨ms, gaps₂, hms, hmatches⟩ := ih hds gaps₁
    refine ⟨m :: ms, gaps₂, ?_, .cons hmatch hmatches⟩
    rw [ofDecls, hm]
    simp only [bind, Except.bind, hms]
    rfl

theorem realizes_register {r : Register} {offset : Nat}
    (hwhole : r.dim = none ∨ r.isDeclaredAsArray = true)
    (hnat : Decl.isNaturalWord r offset = true) : Realizes (.register r offset) := by
  intro gaps
  obtain ⟨t, ht, hbytes⟩ := exists_ofWidth hnat
  cases hd : r.dim with
  | none =>
    refine ⟨.word r.access.qualifier t (CText.identifier r.name) none
      (some ⟨offset, r.description⟩), gaps, ?_, hbytes, ?_, ?_⟩
    · simp only [ofDecl, ofRegister, hd, ht]
      rfl
    · show t.bytes * 1 = r.totalSize
      rw [Nat.mul_one, Register.totalSize_of_dim_none hd, hbytes]
    · show [(offset, t.bytes * 1)] = [(offset, r.totalSize)]
      rw [Nat.mul_one, Register.totalSize_of_dim_none hd, hbytes]
  | some d =>
    have hsize : t.bytes * d.count = r.totalSize := by
      rcases hwhole with hnone | hwhole
      · rw [hd] at hnone
        cases hnone
      · rw [hbytes, totalSize_of_isDeclaredAsArray hd hwhole]
    refine ⟨.word r.access.qualifier t (CText.identifier r.baseName) (some d.count)
      (some ⟨offset, r.description⟩), gaps, ?_, hbytes, hsize, ?_⟩
    · simp only [ofDecl, ofRegister, hd, ht]
      rfl
    · exact congrArg (fun n => [(offset, n)]) hsize

theorem realizes_element {r : Register} {i offset : Nat}
    (hnat : Decl.isNaturalWord r offset = true) : Realizes (.element r i offset) := by
  intro gaps
  obtain ⟨t, ht, hbytes⟩ := exists_ofWidth hnat
  have hsize : t.bytes * 1 = r.elementSize := by rw [Nat.mul_one, hbytes]
  refine ⟨.word r.access.qualifier t (CText.identifier (elementName r.name r.dim i)) none
    (some ⟨offset, elementName r.description r.dim i⟩), gaps, ?_, hbytes, hsize, ?_⟩
  · simp only [ofDecl, ofRegister, ht]
    rfl
  · exact congrArg (fun n => [(offset, n)]) hsize

/-- A gap is filled with integers of its alignment, so many that they have its size. -/
theorem realizes_reserved {offset size : Nat} (hsize : 0 < size) :
    Realizes (.reserved offset size) := by
  have hword (t : WordType) (hdvd : t.bytes ∣ size) (q name : String) :
      (word q t name (if 1 < size / t.bytes then some (size / t.bytes) else none) none).size =
        size := by
    obtain ⟨n, rfl⟩ := hdvd
    have ht : 0 < t.bytes := by cases t <;> decide
    have hn : 0 < n := Nat.pos_of_mul_pos_left hsize
    simp only [Member.size, Nat.mul_div_cancel_left n ht]
    by_cases h : 1 < n
    · rw [if_pos h, Option.getD_some]
    · rw [if_neg h, Option.getD_none, show n = 1 by omega]
  intro gaps
  simp only [ofDecl, ofGap, if_neg (Nat.ne_of_gt hsize), Bool.false_eq_true, if_false]
  by_cases h4 : size % 4 = 0 ∧ offset % 4 = 0
  · rw [if_pos h4]
    refine ⟨_, _, rfl, ?_, hword .word32 (Nat.dvd_of_mod_eq_zero h4.1) _ _, rfl⟩
    simp only [align, WordType.bytes, Decl.align, Decl.fillAlign, if_pos h4]
  · by_cases h2 : size % 2 = 0 ∧ offset % 2 = 0
    · rw [if_neg h4, if_pos h2]
      refine ⟨_, _, rfl, ?_, hword .word16 (Nat.dvd_of_mod_eq_zero h2.1) _ _, rfl⟩
      simp only [align, WordType.bytes, Decl.align, Decl.fillAlign, if_neg h4, if_pos h2]
    · rw [if_neg h4, if_neg h2]
      refine ⟨_, _, rfl, ?_, hword .word8 (Nat.one_dvd _) _ _, rfl⟩
      simp only [align, WordType.bytes, Decl.align, Decl.fillAlign, if_neg h4, if_neg h2]

/-- Members of natural declarations that follow each other from an aligned offset on. -/
theorem extentsFrom_of_natural {base size : Nat} {ds : List Decl} {ms : List Member}
    (h : List.Forall₂ Matches ds ms) (htiles : Decl.Tiles base ds (base + size))
    (hnat : Decl.isNaturalAll ds = true) (hbase : Decl.alignAll ds ∣ base) :
    extentsFrom base 0 ms = Decl.extentsAll ds ∧ endFrom 0 ms = size :=
  extentsFrom_of_tiles h htiles (Decl.isNaturalAll_iff.1 hnat) fun _ hd =>
    Nat.dvd_trans (Decl.align_dvd_alignAll hnat hd) hbase

theorem roundUp_alignAll {size : Nat} {ds : List Decl} {ms : List Member}
    (h : List.Forall₂ Matches ds ms) (hnat : Decl.isNaturalAll ds = true)
    (hsize : Decl.alignAll ds ∣ size) : roundUp size (alignAll ms) = size := by
  rw [alignAll_of_matches h]
  exact roundUp_of_dvd
    (Nat.pos_of_dvd_of_pos (Decl.alignAll_dvd_eight ds hnat) (by decide)) hsize

/-- Proper declarations that are natural are written as members that match them. -/
theorem realizes_of_proper {d : Decl} (h : d.Proper) : d.isNatural = true → Realizes d := by
  induction h with
  | register hwhole => exact fun hnat => realizes_register hwhole hnat
  | element r i offset => exact fun hnat => realizes_element hnat
  | @cluster c offset size ds htiles _ ih =>
    intro hnat gaps
    simp only [Decl.isNatural, Bool.and_eq_true, beq_iff_eq] at hnat
    obtain ⟨⟨⟨hnat, hoffset⟩, hfin⟩, hcount⟩ := hnat
    have hreal := fun d hd => ih d hd (Decl.isNaturalAll_iff.1 hnat d hd)
    obtain ⟨ms, gaps', hms, hmatch⟩ := exists_ofDecls hreal gaps
    rw [← Nat.zero_add (Decl.lastFin ds)] at htiles
    obtain ⟨hextents, hend⟩ := extentsFrom_of_natural hmatch htiles hnat (Nat.dvd_zero _)
    have hsize : roundUp (endFrom 0 ms) (alignAll ms) * (c.dim.map Dim.count).getD 1 = size := by
      have hgetD : (c.dim.map Dim.count).getD 1 = Dim.countOf c.dim := by cases c.dim <;> rfl
      rw [hend, roundUp_alignAll hmatch hnat (Nat.dvd_of_mod_eq_zero hfin), hgetD, hcount]
    refine ⟨.nested (.cluster (CText.identifier c.baseName) (c.dim.map Dim.count))
      ⟨offset, s!"(size=0x{Text.hex size 4}, {size})"⟩ ms, gaps', ?_, alignAll_of_matches hmatch,
      hsize, ?_⟩
    · rw [ofDecl, hms]
      rfl
    · rw [extents, Decl.extents]
      exact congr (congrArg (fun n => List.cons (offset, n)) hsize) hextents
  | @union offset size ds hne hspans _ ih =>
    intro hnat gaps
    simp only [Decl.isNatural, Bool.and_eq_true, beq_iff_eq] at hnat
    obtain ⟨⟨hnat, hoffset⟩, hfin⟩ := hnat
    have hreal := fun d hd => ih d hd (Decl.isNaturalAll_iff.1 hnat d hd)
    obtain ⟨ms, gaps', hms, hmatch⟩ := exists_ofDecls hreal gaps
    have hsize : roundUp (widest ms) (alignAll ms) = size := by
      rw [widest_of_spans hmatch hspans hne,
        roundUp_alignAll hmatch hnat (Nat.dvd_of_mod_eq_zero hfin)]
    refine ⟨.nested .union (sizeNote offset size) ms, gaps', ?_, alignAll_of_matches hmatch, hsize,
      ?_⟩
    · rw [ofDecl, hms]
      rfl
    · rw [extents, Decl.extents]
      exact congr (congrArg (fun n => List.cons (offset, n)) hsize)
        (extentsAt_of_spans hmatch hspans)
  | @struct offset size ds htiles _ ih =>
    intro hnat gaps
    simp only [Decl.isNatural, Bool.and_eq_true, beq_iff_eq] at hnat
    obtain ⟨⟨hnat, hoffset⟩, hfin⟩ := hnat
    have hreal := fun d hd => ih d hd (Decl.isNaturalAll_iff.1 hnat d hd)
    obtain ⟨ms, gaps', hms, hmatch⟩ := exists_ofDecls hreal gaps
    obtain ⟨hextents, hend⟩ :=
      extentsFrom_of_natural hmatch htiles hnat (Nat.dvd_of_mod_eq_zero hoffset)
    have hsize : roundUp (endFrom 0 ms) (alignAll ms) = size := by
      rw [hend, roundUp_alignAll hmatch hnat (Nat.dvd_of_mod_eq_zero hfin)]
    refine ⟨.nested .struct (sizeNote offset size) ms, gaps', ?_, alignAll_of_matches hmatch, hsize,
      ?_⟩
    · rw [ofDecl, hms]
      rfl
    · rw [extents, Decl.extents]
      exact congr (congrArg (fun n => List.cons (offset, n)) hsize) hextents
  | reserved hpos => exact fun _ => realizes_reserved hpos

end Member

/-- **Placement.** A layout whose declarations begin and end at multiples of their alignments can
be written, and C gives every member, at every depth, the offset and the size that are recorded. -/
theorem layout_placement {es : List Element} {ds : List Decl} (h : layout es = .ok ds)
    (hnat : Decl.isNaturalAll ds = true) :
    ∃ ms, Member.ofLayout false ds = .ok ms ∧ Member.extentsFrom 0 0 ms = Decl.extentsAll ds := by
  obtain ⟨htiles, hproper⟩ := layout_proper h
  have hreal := fun d hd =>
    Member.realizes_of_proper (hproper d hd) (Decl.isNaturalAll_iff.1 hnat d hd)
  obtain ⟨ms, gaps, hms, hmatch⟩ := Member.exists_ofDecls hreal 0
  rw [← Nat.zero_add (Decl.lastFin ds)] at htiles
  refine ⟨ms, ?_, (Member.extentsFrom_of_natural hmatch htiles hnat (Nat.dvd_zero _)).1⟩
  rw [Member.ofLayout, hms]
  rfl

section Example

/-- Two channels of a word and a half-word each, behind a register that a smaller one overlaps. -/
private def banked : List Element :=
  [.register (.plain "CTRL" 0 32), .register (.plain "CTRL8" 1 8),
   .cluster { name := "CH%s", offset := 8, dim := some (.counted 8 2) }
     [.register (.plain "DATA" 0 32), .register (.plain "STAT" 4 16)]]

private def bankedDecls : List Decl :=
  [.union 0 4 [.register (.plain "CTRL" 0 32) 0,
     .struct 0 4 [.reserved 0 1, .register (.plain "CTRL8" 1 8) 1, .reserved 2 2]],
   .reserved 4 4,
   .cluster { name := "CH%s", offset := 8, dim := some (.counted 8 2) } 8 16
     [.register (.plain "DATA" 0 32) 0, .register (.plain "STAT" 4 16) 4, .reserved 6 2]]

theorem layout_placement_banked :
    layout banked = .ok bankedDecls ∧ Decl.isNaturalAll bankedDecls = true ∧
      ∃ ms, Member.ofLayout false bankedDecls = .ok ms ∧
        Member.extentsFrom 0 0 ms = [(0, 4), (0, 4), (0, 4), (1, 1), (8, 16), (0, 4), (4, 2)] :=
  have h : layout banked = .ok bankedDecls := by cbv
  have hnat : Decl.isNaturalAll bankedDecls = true := by decide
  ⟨h, hnat, layout_placement h hnat⟩

/-- Half-words only, all of them at even addresses, in a cluster at 2 with a gap at 4 in it. -/
private def shifted : List Element :=
  [.cluster { name := "C", offset := 2 }
     [.register (.plain "A" 0 16), .register (.plain "B" 2 16), .register (.plain "D" 8 16)],
   .register (.plain "E" 12 16)]

private def shiftedDecls : List Decl :=
  [.reserved 0 2,
   .cluster { name := "C", offset := 2 } 2 10
     [.register (.plain "A" 0 16) 0, .register (.plain "B" 2 16) 2, .reserved 4 4,
      .register (.plain "D" 8 16) 8],
   .register (.plain "E" 12 16) 12]

private def shiftedWord (name : String) (offset : Nat) : Member :=
  .word Access.readWrite.qualifier .word16 (CText.identifier name) none (some ⟨offset, ""⟩)

private def filler (type : WordType) (mark : String) (gaps : Nat) : Member :=
  .word "__I" type s!"RESERVED{mark}{gaps}" none none

private def shiftedMembers : List Member :=
  [filler .word16 "" 0,
   .nested (.cluster (CText.identifier (Cluster.baseName { name := "C" })) none)
     ⟨2, s!"(size=0x{Text.hex 10 4}, {10})"⟩
     [shiftedWord "A" 0, shiftedWord "B" 2, filler .word32 "" 1, shiftedWord "D" 8],
   shiftedWord "E" 12]

/-- The gap is filled with a word, for its offset in the cluster is a multiple of 4. That aligns
the cluster to 4, and C places it and what is behind it further back than recorded. -/
theorem layout_placement_shifted :
    (∀ w ∈ Element.instancesAll 0 shifted, w.register.width = 16 ∧ 2 ∣ w.address) ∧
      layout shifted = .ok shiftedDecls ∧
      Decl.extentsAll shiftedDecls = [(2, 10), (0, 2), (2, 2), (8, 2), (12, 2)] ∧
      ∃ ms, Member.ofLayout false shiftedDecls = .ok ms ∧
        Member.extentsFrom 0 0 ms = [(4, 12), (0, 2), (2, 2), (8, 2), (16, 2)] :=
  ⟨by decide, by cbv, by decide, shiftedMembers, rfl, by decide⟩

end Example

end RegisterMap
