import RegisterMap.Proofs.Prefix

/-!
# Cutting names at a byte

The common part of names, found in their UTF-8 bytes: as many bytes as all names share with the
first one, up to its first underscore if there is more behind, and only if a character begins there
(`CommonPrefix.cut?`). A byte where the first name may be cut is between characters in all names,
and what is cut off there is the common part in characters (`CommonPrefix.eq_of_cut?`,
`CommonPrefix.isRemovable_iff_cut?`). Taking it is a renaming that can be undone and keeps the order
of the names (`Workpiece.extractPrefix_renames`).
-/

namespace RegisterMap

namespace CommonPrefix

/-! ## Bytes -/

/-- The bytes of a text. -/
def bytes (s : String) : List UInt8 := s.toByteArray.data.toList

/-- The number of bytes that both texts start with. -/
def sharedBytes (a b : String) : Nat :=
  (((bytes a).zip (bytes b)).takeWhile fun (x, y) => x == y).length

/-- The number of bytes that the first name and all of the names start with. -/
def commonBytes (first : String) (names : List String) : Nat :=
  names.foldl (fun n name => min n (sharedBytes first name)) first.utf8ByteSize

/-- The number of bytes before the first underscore, all of them when there is none. -/
def bytesToUnderscore (s : String) : Nat :=
  (String.ofList (s.toList.takeWhile (· != '_'))).utf8ByteSize

/-- The byte that ends what the names share with the first of them: the one behind its first
underscore, if this neither begins nor ends it. -/
def cutByte (first : String) (names : List String) : Nat :=
  let common := commonBytes first names
  let head := bytesToUnderscore first
  if 0 < head ∧ head + 1 < common then head + 1 else common

/-- The byte that names are cut at, if they share more than one byte and a character of the first
name begins there. -/
def cut? : List String → Option Nat
  | [] => none
  | first :: names =>
    let n := cutByte first (first :: names)
    if 1 < n && String.Pos.Raw.isValid first ⟨n⟩ then some n else none

theorem length_bytes (s : String) : (bytes s).length = s.utf8ByteSize := by
  rw [bytes, Array.length_toList]
  exact String.size_toByteArray

theorem bytes_append (a b : String) : bytes (a ++ b) = bytes a ++ bytes b := by
  rw [bytes, String.toByteArray_append, ByteArray.toList_data_append]
  rfl

/-- No text begins with the bytes of another that it does not begin with. -/
theorem eq_append_of_bytes {a s : String} (h : bytes a <+: bytes s) : ∃ b, s = a ++ b := by
  obtain ⟨t, ht⟩ := h
  have harray : a.toByteArray ++ ⟨t.toArray⟩ = s.toByteArray := by
    apply ByteArray.ext
    rw [ByteArray.data_append, ← Array.toList_inj, Array.toList_append]
    exact ht
  rw [← String.utf8Encode_toList, ← String.utf8Encode_toList (b := s)] at harray
  obtain ⟨b, hb⟩ := List.isPrefix_of_utf8Encode_append_eq_utf8Encode _ harray
  refine ⟨.ofList b, ?_⟩
  rw [← String.toList_inj, String.toList_append, String.toList_ofList, hb]

theorem le_length_takeWhile_zip {α : Type} [BEq α] [LawfulBEq α] {as bs : List α} {n : Nat} :
    n ≤ ((as.zip bs).takeWhile fun (x, y) => x == y).length ↔
      n ≤ as.length ∧ as.take n <+: bs := by
  induction as generalizing bs n with
  | nil =>
    simp only [List.zip_nil_left, List.takeWhile_nil, List.length_nil, List.take_nil]
    exact ⟨fun h => ⟨h, List.nil_prefix⟩, fun h => h.1⟩
  | cons a as ih =>
    cases n with
    | zero => simp
    | succ n =>
      cases bs with
      | nil => simp
      | cons b bs =>
        rw [List.zip_cons_cons, List.takeWhile_cons]
        by_cases hab : a = b
        · simp [hab, ih]
        · simp [hab]

theorem le_commonBytes_iff {first : String} {names : List String} {n : Nat} :
    n ≤ commonBytes first names ↔
      n ≤ first.utf8ByteSize ∧ ∀ name ∈ names, (bytes first).take n <+: bytes name := by
  unfold commonBytes
  generalize hsize : first.utf8ByteSize = size
  have hle : size ≤ first.utf8ByteSize := Nat.le_of_eq hsize.symm
  clear hsize
  induction names generalizing size with
  | nil => simp
  | cons name names ih =>
    refine (ih _ (Nat.le_trans (Nat.min_le_left _ _) hle)).trans ?_
    rw [List.forall_mem_cons, Nat.le_min, sharedBytes, le_length_takeWhile_zip, length_bytes]
    constructor
    · rintro ⟨⟨hn, -, hname⟩, hnames⟩
      exact ⟨hn, hname, hnames⟩
    · rintro ⟨hn, hname, hnames⟩
      exact ⟨⟨hn, Nat.le_trans hn hle, hname⟩, hnames⟩

/-- A text that all names begin with is no longer than what they share. -/
theorem le_commonBytes {first common : String} {names : List String} (hfirst : first ∈ names)
    (h : ∀ name ∈ names, ∃ rest, name = common ++ rest) :
    common.utf8ByteSize ≤ commonBytes first names := by
  obtain ⟨rest, hrest⟩ := h first hfirst
  have htake : (bytes first).take common.utf8ByteSize = bytes common := by
    rw [hrest, bytes_append, ← length_bytes, List.take_left']
    rfl
  refine le_commonBytes_iff.2 ⟨?_, fun name hname => ?_⟩
  · rw [hrest, String.utf8ByteSize_append]
    exact Nat.le_add_right _ _
  · obtain ⟨rest, rfl⟩ := h name hname
    rw [htake, bytes_append]
    exact List.prefix_append _ _

/-- A text that the first name begins with, and that is no longer than what the names share, is one
that all names begin with. -/
theorem exists_append_of_le {first common rest : String} {names : List String}
    (hfirst : first = common ++ rest) (h : common.utf8ByteSize ≤ commonBytes first names) :
    ∀ name ∈ names, ∃ rest, name = common ++ rest := by
  intro name hname
  have htake := (le_commonBytes_iff.1 h).2 name hname
  rw [hfirst, bytes_append, ← length_bytes, List.take_left' rfl] at htake
  exact eq_append_of_bytes htake

/-! ## The common part in characters -/

theorem isPrefix_shared {p a b : List Char} (ha : p <+: a) (hb : p <+: b) : p <+: shared a b := by
  obtain ⟨a, rfl⟩ := ha
  obtain ⟨b, rfl⟩ := hb
  rw [shared_append]
  exact List.prefix_append _ _

/-- What all names begin with is part of what they share. -/
theorem isPrefix_sharedByAll {p : List Char} {names : List (List Char)} (hne : names ≠ [])
    (h : ∀ n ∈ names, p <+: n) : p <+: sharedByAll names := by
  cases names with
  | nil => exact absurd rfl hne
  | cons n names =>
    obtain ⟨hn, hnames⟩ := List.forall_mem_cons.1 h
    rw [sharedByAll]
    clear h hne
    induction names generalizing n with
    | nil => exact hn
    | cons m names ih =>
      obtain ⟨hm, hnames⟩ := List.forall_mem_cons.1 hnames
      exact ih (shared n m) (isPrefix_shared hn hm) hnames

theorem takeWhile_underscore {head rest : List Char} (h : '_' ∉ head) :
    (head ++ '_' :: rest).takeWhile (· != '_') = head := by
  have hother : ∀ c ∈ head, (c != '_') = true := fun c hc => by
    rw [bne_iff_ne]
    rintro rfl
    exact h hc
  rw [List.takeWhile_append_of_pos hother, List.takeWhile_cons_of_neg (by simp), List.append_nil]

/-- A text is cut behind its first underscore if that neither begins nor ends it. -/
theorem cutAtUnderscore_cases (s : List Char) :
    (∃ head rest, head ≠ [] ∧ rest ≠ [] ∧ '_' ∉ head ∧ s = head ++ '_' :: rest ∧
        cutAtUnderscore s = head ++ ['_']) ∨
      cutAtUnderscore s = s ∧
        ∀ head rest, head ≠ [] → '_' ∉ head → s = head ++ '_' :: rest → rest = [] := by
  have hhead : '_' ∉ s.takeWhile (· != '_') := fun hmem => by
    simpa using List.all_eq_true.1 (List.all_takeWhile (p := (· != '_')) (l := s)) _ hmem
  by_cases hcut : (s.takeWhile (· != '_')).isEmpty ||
      s.length ≤ (s.takeWhile (· != '_')).length + 1
  · refine .inr ⟨if_pos hcut, fun head rest hne hnot hs => ?_⟩
    have hwhole : s.takeWhile (· != '_') = head := by rw [hs, takeWhile_underscore hnot]
    rw [hwhole, Bool.or_eq_true, List.isEmpty_iff, decide_eq_true_eq, hs, List.length_append,
      List.length_cons] at hcut
    rcases hcut with hnil | hlength
    · exact absurd hnil hne
    · exact List.eq_nil_of_length_eq_zero (by omega)
  · left
    have happend := List.takeWhile_append_dropWhile (p := (· != '_')) (l := s)
    have hkept : cutAtUnderscore s = s.takeWhile (· != '_') ++ ['_'] := if_neg hcut
    rw [Bool.or_eq_true, List.isEmpty_iff, decide_eq_true_eq, not_or, Nat.not_le] at hcut
    obtain ⟨hne, hlength⟩ := hcut
    generalize s.takeWhile (· != '_') = head at *
    have hstop := List.head?_dropWhile_not (· != '_') s
    cases hrest : s.dropWhile (· != '_') with
    | nil =>
      rw [hrest, List.append_nil] at happend
      rw [happend] at hlength
      omega
    | cons c rest =>
      rw [hrest] at hstop happend
      have hc : c = '_' := by simpa using hstop
      subst hc
      refine ⟨head, rest, hne, ?_, hhead, happend.symm, hkept⟩
      rintro rfl
      rw [← happend, List.length_append, List.length_singleton] at hlength
      omega

theorem eq_append_of_isPrefix {p : List Char} {s : String} (h : p <+: s.toList) :
    s = .ofList p ++ .ofList (s.toList.drop p.length) := by
  rw [← String.ofList_append, List.prefix_iff_eq_append.1 h, String.ofList_toList]

/-- All that names share. -/
def sharedText (names : List String) : String := .ofList (sharedByAll (names.map String.toList))

/-- The part that names have in common. -/
def commonText (names : List String) : String := .ofList (ofNames (names.map String.toList))

section Cut

variable {first : String} {names : List String}

theorem exists_append_sharedText (names : List String) :
    ∀ name ∈ names, ∃ rest, name = sharedText names ++ rest :=
  fun _ hname => ⟨_, eq_append_of_isPrefix (sharedByAll_isPrefix (List.mem_map_of_mem hname))⟩

theorem sharedText_eq_append {p : String} (hfirst : first ∈ names)
    (h : ∀ name ∈ names, ∃ rest, name = p ++ rest) : ∃ rest, sharedText names = p ++ rest := by
  have hprefix : p.toList <+: (sharedText names).toList := by
    rw [sharedText, String.toList_ofList]
    refine isPrefix_sharedByAll (List.ne_nil_of_mem (List.mem_map_of_mem hfirst)) ?_
    refine List.forall_mem_map.2 fun name hname => ?_
    obtain ⟨rest, rfl⟩ := h name hname
    rw [String.toList_append]
    exact List.prefix_append _ _
  have hsplit := eq_append_of_isPrefix hprefix
  rw [String.ofList_toList] at hsplit
  exact ⟨_, hsplit⟩

/-- As many bytes as names share are all that they share, if a character begins behind them. -/
theorem commonBytes_of_isValid (hfirst : first ∈ names)
    (h : String.Pos.Raw.IsValid first ⟨commonBytes first names⟩) :
    commonBytes first names = (sharedText names).utf8ByteSize := by
  obtain ⟨p, rest, hp, hsize⟩ := String.Pos.Raw.isValid_iff_exists_append.1 h
  have hsize : commonBytes first names = p.utf8ByteSize := congrArg String.Pos.Raw.byteIdx hsize
  obtain ⟨more, hmore⟩ := sharedText_eq_append hfirst
    (exists_append_of_le hp (Nat.le_of_eq hsize.symm))
  have hle := le_commonBytes hfirst (exists_append_sharedText names)
  have hge : p.utf8ByteSize ≤ (sharedText names).utf8ByteSize := by
    rw [hmore, String.utf8ByteSize_append]
    exact Nat.le_add_right _ _
  omega

/-- So they are if a character of one byte follows in the first name. -/
theorem commonBytes_of_ascii {c : Char} {rest : List Char} (hfirst : first ∈ names)
    (hc : c.utf8Size = 1) (h : first = sharedText names ++ .ofList (c :: rest)) :
    commonBytes first names = (sharedText names).utf8ByteSize := by
  have hle := le_commonBytes hfirst (exists_append_sharedText names)
  rcases Nat.eq_or_lt_of_le hle with heq | hlt
  · exact heq.symm
  · -- the names would share that character
    have hsize : (sharedText names ++ .ofList [c]).utf8ByteSize =
        (sharedText names).utf8ByteSize + 1 := by
      rw [String.utf8ByteSize_append, ← hc]
      exact congrArg _ String.utf8ByteSize_singleton
    have hsplit : first = sharedText names ++ .ofList [c] ++ .ofList rest := by
      rw [h, String.append_assoc, ← String.ofList_append]
      rfl
    obtain ⟨more, hmore⟩ := sharedText_eq_append hfirst
      (exists_append_of_le hsplit (by rw [hsize]; exact hlt))
    have hsizes := congrArg String.utf8ByteSize hmore
    rw [String.utf8ByteSize_append, hsize] at hsizes
    omega

theorem utf8ByteSize_pos {cs : List Char} (h : cs ≠ []) : 0 < (String.ofList cs).utf8ByteSize := by
  refine Nat.pos_of_ne_zero fun hzero => h ?_
  rw [← String.toList_ofList (l := cs), String.utf8ByteSize_eq_zero_iff.1 hzero]
  rfl

/-- The first underscore of a text that has one. -/
theorem eq_append_underscore {s : String} (h : bytesToUnderscore s < s.utf8ByteSize) :
    ∃ head rest, '_' ∉ head ∧ s = .ofList (head ++ ['_']) ++ .ofList rest ∧
      bytesToUnderscore s = (String.ofList head).utf8ByteSize := by
  have happend := List.takeWhile_append_dropWhile (p := (· != '_')) (l := s.toList)
  have hhead : '_' ∉ s.toList.takeWhile (· != '_') := fun hmem => by
    simpa using List.all_eq_true.1 (List.all_takeWhile (p := (· != '_')) (l := s.toList)) _ hmem
  have hstop := List.head?_dropWhile_not (· != '_') s.toList
  cases hrest : s.toList.dropWhile (· != '_') with
  | nil =>
    rw [hrest, List.append_nil] at happend
    rw [bytesToUnderscore, happend, String.ofList_toList] at h
    exact absurd h (Nat.lt_irrefl _)
  | cons c rest =>
    rw [hrest] at hstop happend
    have hc : c = '_' := by simpa using hstop
    subst hc
    refine ⟨_, rest, hhead, ?_, rfl⟩
    rw [← String.ofList_append, List.append_assoc, List.singleton_append, happend,
      String.ofList_toList]

theorem utf8ByteSize_underscore (head : List Char) :
    (String.ofList (head ++ ['_'])).utf8ByteSize = (String.ofList head).utf8ByteSize + 1 := by
  rw [String.ofList_append, String.utf8ByteSize_append]
  rfl

/-- The names are cut behind their common part, or else behind all bytes that they share, where the
common part is all that they share. -/
theorem cutByte_cases (hfirst : first ∈ names) :
    cutByte first names = (commonText names).utf8ByteSize ∨
      cutByte first names = commonBytes first names ∧ commonText names = sharedText names := by
  have hle := le_commonBytes hfirst (exists_append_sharedText names)
  rcases cutAtUnderscore_cases (sharedByAll (names.map String.toList)) with
    ⟨head, rest, hne, hrest, hhead, hshared, hcut⟩ | ⟨hcut, honly⟩
  · left
    have hcommon : commonText names = .ofList (head ++ ['_']) := congrArg String.ofList hcut
    have htext : sharedText names = .ofList (head ++ ['_']) ++ .ofList rest := by
      rw [sharedText, hshared, ← String.ofList_append, List.append_assoc]
      rfl
    obtain ⟨more, hmore⟩ := exists_append_sharedText names first hfirst
    have hbytes : bytesToUnderscore first = (String.ofList head).utf8ByteSize := by
      rw [bytesToUnderscore, hmore, String.toList_append, sharedText, String.toList_ofList, hshared,
        List.append_assoc, List.cons_append, takeWhile_underscore hhead]
    have hpos := utf8ByteSize_pos hne
    have hmorePos := utf8ByteSize_pos hrest
    rw [htext, String.utf8ByteSize_append, utf8ByteSize_underscore] at hle
    rw [cutByte, hbytes, if_pos ⟨hpos, by omega⟩, hcommon, utf8ByteSize_underscore]
  · have hcommon : commonText names = sharedText names := congrArg String.ofList hcut
    rw [cutByte]
    split
    · rename_i hcond
      left
      have hsize := (le_commonBytes_iff.1 (Nat.le_refl (commonBytes first names))).1
      obtain ⟨head, rest, hhead, hsplit, hbytes⟩ := eq_append_underscore (s := first) (by omega)
      rw [hbytes] at hcond ⊢
      -- all names have the underscore, so that it ends what they share
      obtain ⟨more, hmore⟩ := sharedText_eq_append hfirst
        (exists_append_of_le hsplit (by rw [utf8ByteSize_underscore]; omega))
      have hne : head ≠ [] := by
        rintro rfl
        exact absurd hcond.1 (Nat.lt_irrefl _)
      have hend : more.toList = [] := honly head more.toList hne hhead (by
        rw [← String.toList_ofList (l := sharedByAll _), ← sharedText, hmore, String.toList_append,
          String.toList_ofList, List.append_assoc]
        rfl)
      rw [hcommon, hmore, String.utf8ByteSize_append, utf8ByteSize_underscore,
        String.utf8ByteSize_eq_zero_iff.2 (String.toList_eq_nil_iff.1 hend)]
    · exact .inr ⟨rfl, hcommon⟩

theorem cut?_eq_some_iff {n : Nat} : cut? names = some n ↔
    ∃ first ∈ names.head?, n = cutByte first names ∧ 1 < n ∧ String.Pos.Raw.IsValid first ⟨n⟩ := by
  cases names with
  | nil => simp [cut?]
  | cons first names =>
    rw [cut?, Option.ite_none_right_eq_some, Bool.and_eq_true, decide_eq_true_eq,
      String.Pos.Raw.isValid_eq_true_iff, Option.some_inj, List.head?_cons]
    constructor
    · rintro ⟨⟨hn, hvalid⟩, rfl⟩
      exact ⟨first, rfl, rfl, hn, hvalid⟩
    · rintro ⟨_, ⟨⟩, rfl, hn, hvalid⟩
      exact ⟨⟨hn, hvalid⟩, rfl⟩

theorem eq_append_commonText {name : String} (h : name ∈ names) :
    name = commonText names ++
      .ofList (name.toList.drop (ofNames (names.map String.toList)).length) :=
  eq_append_of_isPrefix (ofNames_isPrefix (List.mem_map_of_mem h))

/-- The byte that names are cut at is the end of their common part. -/
theorem eq_of_cut? {n : Nat} (h : cut? names = some n) : n = (commonText names).utf8ByteSize := by
  obtain ⟨first, hfirst, rfl, -, hvalid⟩ := cut?_eq_some_iff.1 h
  have hfirst := List.mem_of_mem_head? hfirst
  rcases cutByte_cases hfirst with hcut | ⟨hcut, hall⟩
  · exact hcut
  · rw [hcut] at hvalid
    rw [hcut, hall, commonBytes_of_isValid hfirst hvalid]

/-- No name is cut within a character. -/
theorem isValid_of_cut? {n : Nat} (h : cut? names = some n) :
    ∀ name ∈ names, String.Pos.Raw.IsValid name ⟨n⟩ := by
  intro name hname
  rw [eq_of_cut? h]
  exact String.Pos.Raw.isValid_iff_exists_append.2 ⟨_, _, eq_append_commonText hname, rfl⟩

/-- A character that a name may start with begins at the byte. -/
def StartsAt (n : Nat) (s : String) : Prop :=
  ∃ front c rest, s = front ++ .ofList (c :: rest) ∧ front.utf8ByteSize = n ∧ startsName c = true

theorem startsAt_iff {s front : String} {rest : List Char} (hs : s = front ++ .ofList rest) :
    StartsAt front.utf8ByteSize s ↔ rest.head?.any startsName = true := by
  subst hs
  constructor
  · rintro ⟨front', c, rest', h, hsize, hc⟩
    have hbytes := congrArg bytes h
    rw [bytes_append, bytes_append] at hbytes
    obtain ⟨-, hrest⟩ := List.append_inj hbytes (by rw [length_bytes, length_bytes, hsize])
    have hrest : rest = c :: rest' := by
      have harray := String.toByteArray_inj.1 (ByteArray.ext (Array.toList_inj.1 hrest))
      rwa [String.ofList_inj] at harray
    rw [hrest]
    exact hc
  · intro h
    obtain ⟨c, hc, hstarts⟩ := (Option.any_eq_true _ _).1 h
    obtain ⟨rest', rfl⟩ := List.head?_eq_some_iff.1 hc
    exact ⟨front, c, rest', rfl, rfl, hstarts⟩

theorem utf8Size_of_startsName {c : Char} (h : startsName c = true) : c.utf8Size = 1 := by
  have hval : c.val ≤ 127 := by
    have h : (decide (c.val ≥ 'A'.val ∧ c.val ≤ 'Z'.val) ||
        (c.val ≥ 'a'.val && c.val ≤ 'z'.val) || c == '_') = true := h
    simp only [Bool.or_eq_true, Bool.and_eq_true, decide_eq_true_eq, beq_iff_eq] at h
    rcases h with (h | h) | rfl
    · exact UInt32.le_trans h.2 (by decide)
    · exact UInt32.le_trans h.2 (by decide)
    · decide
  exact if_pos hval

/-- The common part of names is taken from them if they can be cut at a byte so that a name is left
of each. -/
theorem isRemovable_iff_cut? (names : List String) :
    isRemovable (ofNames (names.map String.toList)) (names.map String.toList) = true ↔
      ∃ n, cut? names = some n ∧ ∀ name ∈ names, StartsAt n name := by
  have hstarts : ((names.map String.toList).all fun n =>
      (n.drop (ofNames (names.map String.toList)).length).head?.any startsName) = true ↔
        ∀ name ∈ names, StartsAt (commonText names).utf8ByteSize name := by
    rw [List.all_eq_true, List.forall_mem_map]
    exact forall₂_congr fun name hname => (startsAt_iff (eq_append_commonText hname)).symm
  rw [isRemovable, Bool.and_eq_true, decide_eq_true_eq, hstarts]
  constructor
  · rintro ⟨hsize, hall⟩
    refine ⟨_, ?_, hall⟩
    cases names with
    | nil => exact absurd hsize (by decide)
    | cons first names =>
      have hfirst : first ∈ first :: names := List.mem_cons_self
      have hbyte : cutByte first (first :: names) = (commonText (first :: names)).utf8ByteSize := by
        rcases cutByte_cases hfirst with hcut | ⟨hcut, hwhole⟩
        · exact hcut
        · have hsplit := eq_append_commonText hfirst
          have hhead := (startsAt_iff hsplit).1 (hall first hfirst)
          obtain ⟨c, hc, hcstarts⟩ := (Option.any_eq_true _ _).1 hhead
          obtain ⟨rest, hrest⟩ := List.head?_eq_some_iff.1 hc
          rw [hrest, hwhole] at hsplit
          rw [hcut, hwhole, commonBytes_of_ascii hfirst (utf8Size_of_startsName hcstarts) hsplit]
      exact cut?_eq_some_iff.2 ⟨first, rfl, hbyte.symm, hsize,
        String.Pos.Raw.isValid_iff_exists_append.2 ⟨_, _, eq_append_commonText hfirst, rfl⟩⟩
  · rintro ⟨n, hcut, hall⟩
    have hn := eq_of_cut? hcut
    obtain ⟨first, -, -, hsize, -⟩ := cut?_eq_some_iff.1 hcut
    subst hn
    exact ⟨hsize, hall⟩

end Cut

/-- A text is what is left of it without the underscores at its end, and these. -/
theorem exists_trimUnderscores_append (s : List Char) :
    (∃ k, s = trimUnderscores s ++ List.replicate k '_') ∧
      (trimUnderscores s).getLast? ≠ some '_' := by
  constructor
  · have hall : s.reverse.takeWhile (· == '_') =
        List.replicate (s.reverse.takeWhile (· == '_')).length '_' :=
      List.eq_replicate_of_mem fun c hc => by
        simpa using List.all_eq_true.1 (List.all_takeWhile (p := (· == '_')) (l := s.reverse)) c hc
    refine ⟨(s.reverse.takeWhile (· == '_')).length, ?_⟩
    rw [← List.reverse_replicate, ← hall, trimUnderscores, ← List.reverse_append,
      List.takeWhile_append_dropWhile, List.reverse_reverse]
  · rw [trimUnderscores, List.getLast?_reverse]
    intro h
    have hstop := List.head?_dropWhile_not (· == '_') s.reverse
    rw [h] at hstop
    simp at hstop

end CommonPrefix

namespace Peripheral

open CommonPrefix

/-- The peripheral `q` is `p` with a common part of all names taken from them, and otherwise as it
was, except that it is described by its name where it had no description. -/
structure LosesPrefix (common : String) (p q : Peripheral) : Prop where
  two_le : 2 ≤ common.utf8ByteSize
  named : List.Forall₂ (fun e f : Element => e.name = common ++ f.name ∧ f = e.withName f.name ∧
    f.name.toList.head?.any startsName = true) p.registers q.registers
  prepended : ∃ front k, q.prependToName = some front ∧
    common.toList = front.toList ++ List.replicate k '_' ∧ front.toList.getLast? ≠ some '_'
  described : q.description = p.description ∨ p.description = "" ∧ q.description = p.name
  rest_eq : { q with
    registers := p.registers, prependToName := p.prependToName, description := p.description } = p

/-- The names can be cut at a byte, and no part of them was taken before. -/
def HasPrefix (p : Peripheral) : Prop :=
  (p.prependToName = none ∨ p.prependToName = some "") ∧
    ∃ n, cut? (p.registers.map Element.name) = some n ∧
      ∀ e ∈ p.registers, StartsAt n e.name

theorem elementNames_eq_map (p : Peripheral) :
    p.elementNames = (p.registers.map Element.name).map String.toList := by
  rw [elementNames, List.map_map]
  rfl

theorem hasNoPrefix_iff (p : Peripheral) : p.HasNoPrefix ↔ ¬p.HasPrefix := by
  have hremovable := isRemovable_iff_cut? (p.registers.map Element.name)
  simp only [List.forall_mem_map] at hremovable
  rw [HasNoPrefix, HasPrefix, ← hremovable, ← elementNames_eq_map, not_and_or,
    Bool.not_eq_true]
  refine or_congr_left ?_
  cases p.prependToName with
  | none => simp
  | some front => simp

/-- Elements without a common part of their names. -/
theorem losesPrefix_takePrefix {p : Peripheral} {n : Nat}
    (hcut : cut? (p.registers.map Element.name) = some n)
    (hstarts : ∀ e ∈ p.registers, StartsAt n e.name) {description : String}
    (hdescription : description = p.description ∨ p.description = "" ∧ description = p.name) :
    p.LosesPrefix (commonText (p.registers.map Element.name))
      { p.takePrefix (ofNames p.elementNames) with description } where
  two_le := by
    rw [← eq_of_cut? hcut]
    obtain ⟨-, -, -, hn, -⟩ := cut?_eq_some_iff.1 hcut
    exact hn
  named := by
    refine List.forall₂_map_right_iff.2 (List.forall₂_same.2 fun e he => ?_)
    have hname := eq_append_commonText (List.mem_map_of_mem (f := Element.name) he)
    have hstart := hstarts e he
    rw [elementNames_eq_map, Element.name_withName]
    refine ⟨hname, rfl, ?_⟩
    rw [eq_of_cut? hcut, startsAt_iff hname] at hstart
    rwa [String.toList_ofList]
  prepended := by
    obtain ⟨⟨k, hk⟩, hlast⟩ := exists_trimUnderscores_append (ofNames p.elementNames)
    refine ⟨_, k, rfl, ?_, ?_⟩
    · rw [String.toList_ofList, ← hk, commonText, String.toList_ofList, elementNames_eq_map]
    · rwa [String.toList_ofList]
  described := hdescription
  rest_eq := rfl

/-- Names that lose the same beginning stay equal or distinct, and keep their order. -/
theorem compare_of_named {common : String} {es fs : List Element}
    (h : List.Forall₂ (fun e f : Element => e.name = common ++ f.name) es fs) :
    ∀ e f e' f', (e, f) ∈ es.zip fs → (e', f') ∈ es.zip fs →
      (f.name = f'.name ↔ e.name = e'.name) ∧
        compare f.name f'.name = compare e.name e'.name := by
  intro e f e' f' hef hef'
  have hname := (List.forall₂_iff_zip.1 h).2 hef
  have hname' := (List.forall₂_iff_zip.1 h).2 hef'
  refine ⟨by rw [hname, hname', String.append_right_inj], ?_⟩
  have happend := compare_append common.toList f.name.toList f'.name.toList
  rw [String.ofList_append, String.ofList_append, String.ofList_toList, String.ofList_toList,
    String.ofList_toList, ← hname, ← hname'] at happend
  exact happend.symm

end Peripheral

namespace Workpiece

open CommonPrefix

/-- The pass takes the common part of the names if there is one, and else does nothing. -/
theorem extractPrefix_cases (w : Workpiece) :
    (¬w.peripheral.HasPrefix ∧ w.extractPrefix = .pure w) ∨
      w.peripheral.HasPrefix ∧ w.extractPrefix.failure = none ∧
        w.peripheral.LosesPrefix (commonText (w.peripheral.registers.map Element.name))
          w.extractPrefix.state.peripheral := by
  by_cases hhas : w.peripheral.HasPrefix
  · right
    have ⟨_, n, hcut, hstarts⟩ := hhas
    have hno : ¬w.peripheral.HasNoPrefix := fun h => (Peripheral.hasNoPrefix_iff _).1 h hhas
    refine ⟨hhas, ?_⟩
    unfold extractPrefix
    simp only
    rw [if_neg (by rw [Bool.or_eq_true, Bool.not_eq_true']; exact hno)]
    split
    · exact ⟨rfl, Peripheral.losesPrefix_takePrefix hcut hstarts (.inl rfl)⟩
    · refine ⟨rfl, Peripheral.losesPrefix_takePrefix hcut hstarts ?_⟩
      by_cases hempty : w.peripheral.description = ""
      · exact .inr ⟨hempty, if_pos (by rw [hempty]; rfl)⟩
      · exact .inl (if_neg (by rwa [String.isEmpty_iff]))
  · exact .inl ⟨hhas, Peripheral.extractPrefix_of_hasNoPrefix
      ((Peripheral.hasNoPrefix_iff _).2 hhas) w.conflicts⟩

/-- What the pass leaves has no common part to take. -/
theorem extractPrefix_extractPrefix (w : Workpiece) :
    w.extractPrefix.state.extractPrefix = .pure w.extractPrefix.state := by
  by_cases hno : w.peripheral.HasNoPrefix
  · have hsame : w.extractPrefix = .pure w :=
      Peripheral.extractPrefix_of_hasNoPrefix hno w.conflicts
    rw [hsame]
    exact hsame
  · obtain ⟨-, description, hstate⟩ := Peripheral.extractPrefix_of_not_hasNoPrefix hno
    have hnone : w.extractPrefix.state.peripheral.HasNoPrefix := by
      rw [hstate]
      exact (Peripheral.hasNoPrefix_takePrefix w.peripheral).congr rfl rfl
    exact Peripheral.extractPrefix_of_hasNoPrefix hnone w.extractPrefix.state.conflicts

/-- **Taking a common part renames.** No name is cut within a character. If there is a byte where
all names can be cut, and no part was taken before, all names lose a common part, which goes to the
peripheral without the underscores at its end; nothing else changes, but that a peripheral without
description gets one. Otherwise nothing changes at all. Names keep their order either way, and a
second pass changes nothing. -/
theorem extractPrefix_renames (w : Workpiece) :
    (∀ n, cut? (w.peripheral.registers.map Element.name) = some n →
      ∀ e ∈ w.peripheral.registers, String.Pos.Raw.IsValid e.name ⟨n⟩) ∧
    w.extractPrefix.failure = none ∧
    (¬w.peripheral.HasPrefix → w.extractPrefix = .pure w) ∧
    (w.peripheral.HasPrefix → ∃ common,
      cut? (w.peripheral.registers.map Element.name) = some common.utf8ByteSize ∧
        w.peripheral.LosesPrefix common w.extractPrefix.state.peripheral) ∧
    (∀ e f e' f', (e, f) ∈ w.peripheral.registers.zip w.extractPrefix.state.peripheral.registers →
      (e', f') ∈ w.peripheral.registers.zip w.extractPrefix.state.peripheral.registers →
      (f.name = f'.name ↔ e.name = e'.name) ∧
        compare f.name f'.name = compare e.name e'.name) ∧
    w.extractPrefix.state.extractPrefix = .pure w.extractPrefix.state := by
  refine ⟨fun n hcut e he => isValid_of_cut? hcut _ (List.mem_map_of_mem he), ?_⟩
  have hagain := extractPrefix_extractPrefix w
  rcases extractPrefix_cases w with ⟨hhas, hsame⟩ | ⟨hhas, hdone, hrenames⟩
  · have hnames : List.Forall₂ (fun e f : Element => e.name = "" ++ f.name)
        w.peripheral.registers w.peripheral.registers :=
      List.forall₂_same.2 fun e _ => (String.empty_append).symm
    refine ⟨by rw [hsame]; rfl, fun _ => hsame, fun h => absurd h hhas, ?_, hagain⟩
    rw [hsame]
    exact Peripheral.compare_of_named hnames
  · have ⟨_, n, hcut, _⟩ := hhas
    refine ⟨hdone, fun h => absurd hhas h, fun _ => ⟨_, ?_, hrenames⟩, ?_, hagain⟩
    · rw [hcut, eq_of_cut? hcut]
    · exact Peripheral.compare_of_named (hrenames.named.imp fun _ _ h => h.1)

end Workpiece

/-- Bytes are compared, not characters: the names share the first byte of a character, too. -/
example : CommonPrefix.commonBytes "Tä" ["Tä", "Tö"] = 2 ∧ CommonPrefix.cut? ["Tä", "Tö"] = none ∧
    CommonPrefix.cut? ["T_ä", "T_ö"] = some 2 := by
  decide

end RegisterMap
