import Mathlib.Data.List.DropRight
import Mathlib.Data.List.TakeDrop
import Mathlib.Data.Option.Basic
import RegisterMap.Datum.Json
import RegisterMap.Proofs.Numeral

/-!
# JSON texts

Every value that JSON can express is read from what it is printed as (`Json.read?_print`): texts by
their escapes, integers by their digits, lists and objects part by part. What is read stops at what
stands behind it, so that the parts can be put together.
-/

namespace RegisterMap.Json

/-! ## Strings -/

theorem hex4?_control : ∀ n < 0x20,
    hex4? '0' '0' (Nat.digitChar (n / 16)) (Nat.digitChar (n % 16)) = some n := by
  decide

theorem string?_of_not_escaped (done : List Char) {c : Char} (hquote : c ≠ '"')
    (hslash : c ≠ '\\') (hcontrol : ¬c.toNat < 0x20) (rest : List Char) :
    string? (some done) none (c :: rest) = string? (some (c :: done)) none rest := by
  rw [string?.eq_def]
  split
  · rename_i heq
    cases heq
  · rename_i heq
    exact absurd (List.cons.inj heq).1 hquote
  · rename_i heq
    exact absurd (List.cons.inj heq).1 hslash
  · rename_i heq
    exact absurd (List.cons.inj heq).1 hslash
  · rename_i heq
    obtain ⟨rfl, rfl⟩ := List.cons.inj heq
    simp [hcontrol]

/-- A character is read from its escape. -/
theorem string?_escape (done : List Char) (c : Char) (rest : List Char) :
    string? (some done) none (escape c ++ rest) = string? (some (c :: done)) none rest := by
  by_cases hletter : c ∈ ['"', '\\', '\x08', '\x0c', '\n', '\r', '\t']
  · simp only [List.mem_cons, List.not_mem_nil, or_false] at hletter
    rcases hletter with rfl | rfl | rfl | rfl | rfl | rfl | rfl <;> rfl
  · simp only [List.mem_cons, List.not_mem_nil, or_false, not_or] at hletter
    obtain ⟨hquote, hslash, h⟩ := hletter
    by_cases hcontrol : c.toNat < 0x20
    · have hescape : escape c = ['\\', 'u', '0', '0', Nat.digitChar (c.toNat / 16),
          Nat.digitChar (c.toNat % 16)] := by
        simp [escape, hquote, hslash, h, hcontrol]
      have hsingle : single? c.toNat = some c := by
        rw [single?, if_neg (by omega), Char.ofNat_toNat]
      simp [hescape, string?, hex4?_control c.toNat hcontrol, hsingle]
    · have hescape : escape c = [c] := by simp [escape, hquote, hslash, h, hcontrol]
      rw [hescape]
      exact string?_of_not_escaped done hquote hslash hcontrol rest

theorem string?_flatMap_escape (done s rest : List Char) :
    string? (some done) none (s.flatMap escape ++ '"' :: rest) =
      some (.text (.ofList (done.reverse ++ s)), rest) := by
  induction s generalizing done with
  | nil => simp [string?, textOf]
  | cons c s ih =>
    rw [List.flatMap_cons, List.append_assoc, string?_escape, ih]
    simp

/-- A text is read from its quotation. -/
theorem string?_quote (s : String) (rest : List Char) :
    string? (some []) none (s.toList.flatMap escape ++ '"' :: rest) = some (.text s, rest) := by
  rw [string?_flatMap_escape, List.reverse_nil, List.nil_append, String.ofList_toList]

theorem toList_quote (s : String) :
    (quote s).toList = '"' :: s.toList.flatMap escape ++ ['"'] := by
  rw [quote, String.toList_ofList]

/-- A text that is written as it is. -/
def isVerbatim (s : String) : Bool := s.toList.all fun c => escape c == [c]

theorem flatMap_escape {s : String} (h : isVerbatim s = true) :
    s.toList.flatMap escape = s.toList := by
  have hall := List.all_eq_true.1 h
  calc s.toList.flatMap escape = s.toList.flatMap fun c => [c] := by
        rw [List.flatMap_def, List.map_congr_left fun c hc => eq_of_beq (hall c hc),
          ← List.flatMap_def]
    _ = s.toList := List.flatMap_singleton' s.toList

theorem escape_ne_singleton {c : Char} (h : c = '"' ∨ c = '\\') : escape c ≠ [c] := by
  rcases h with rfl | rfl <;> decide

theorem key?_quote {s : String} (h : isVerbatim s = true) (rest : List Char) :
    key? (s.toList.flatMap escape ++ '"' :: rest) = some (.text s, rest) := by
  have hnone (c : Char) (hc : c = '"' ∨ c = '\\') : c ∉ s.toList := fun hmem =>
    escape_ne_singleton hc (eq_of_beq (List.all_eq_true.1 h c hmem))
  have htake : (s.toList ++ '"' :: rest).takeWhile (· != '"') = s.toList := by
    rw [List.takeWhile_append_of_pos fun c hc => bne_iff_ne.2 fun e => hnone _ (.inl e) hc]
    simp
  have hslash : s.toList.contains '\\' = false := by
    simpa using hnone '\\' (.inr rfl)
  rw [key?, string?_quote, flatMap_escape h, htake, hslash]
  rfl

/-! ## Numbers -/

/-- Nothing that a number could go on with stands in front. -/
def EndsNumber (rest : List Char) : Prop :=
  ∀ c ∈ rest.head?, c.isDigit = false ∧ c ≠ '.' ∧ c ≠ 'e' ∧ c ≠ 'E'

theorem endsNumber_nil : EndsNumber [] := nofun

variable {n : Nat} {rest : List Char}

theorem toDigits_eq_cons (n : Nat) :
    ∃ c cs, Nat.toDigits 10 n = c :: cs ∧ c.isDigit = true := by
  obtain ⟨c, cs, hcs⟩ := List.exists_cons_of_ne_nil (Nat.toDigits_ne_nil (b := 10) (n := n))
  have hmem : c ∈ Nat.toDigits 10 n := hcs ▸ List.mem_cons_self
  exact ⟨c, cs, hcs, Nat.isDigit_of_mem_toDigits (by decide) (by decide) hmem⟩

theorem digits_toDigits (n : Nat) (h : EndsNumber rest) :
    digits (Nat.toDigits 10 n ++ rest) = (Nat.toDigits 10 n, rest) := by
  have hdigit : ∀ c ∈ Nat.toDigits 10 n, c.isDigit = true := fun c hc =>
    Nat.isDigit_of_mem_toDigits (by decide) (by decide) hc
  have hstop : rest.takeWhile Char.isDigit = [] ∧ rest.dropWhile Char.isDigit = rest := by
    cases rest with
    | nil => exact ⟨rfl, rfl⟩
    | cons c cs => simp [(h c rfl).1]
  rw [digits, List.span_eq_takeWhile_dropWhile, List.takeWhile_append_of_pos hdigit,
    List.dropWhile_append_of_pos hdigit, hstop.1, hstop.2, List.append_nil]

theorem fraction?_of_endsNumber (h : EndsNumber rest) : fraction? rest = some ([], rest) := by
  unfold fraction?
  split
  · exact absurd rfl (h _ rfl).2.1
  · rfl

theorem exponent?_of_endsNumber (h : EndsNumber rest) : exponent? rest = some ([], rest) := by
  unfold exponent?
  split
  · rename_i c cs
    obtain ⟨-, -, he, hE⟩ := h c rfl
    simp [he, hE]
  · rfl

theorem decimal_toDigits (n : Nat) : decimal (Nat.toDigits 10 n) = n :=
  Nat.ofDigitChars_toDigits (by decide) (by decide)

/-- Only zero begins with a zero. -/
theorem head?_toDigits_ne (h : 0 < n) : (Nat.toDigits 10 n).head? ≠ some '0' := by
  induction n using Nat.strongRecOn with
  | ind n ih =>
    by_cases hlt : n < 10
    · have hdigit : ∀ d : Nat, d < 10 → 0 < d → d.digitChar ≠ '0' := by decide
      rw [Nat.toDigits_of_lt_base hlt]
      simpa using hdigit n hlt h
    · have hle := Nat.le_of_not_lt hlt
      rw [Nat.toDigits_of_base_le (by decide) hle, List.head?_append]
      have hhead := ih (n / 10) (by omega) (by omega)
      cases hfirst : (Nat.toDigits 10 (n / 10)).head? with
      | none => exact absurd (List.head?_eq_none_iff.1 hfirst) Nat.toDigits_ne_nil
      | some c => rwa [hfirst] at hhead

/-- No digits have a zero in front of others. -/
theorem toDigits_isProper (n : Nat) : ((Nat.toDigits 10 n).isEmpty ||
    ((Nat.toDigits 10 n).head? == some '0' && (Nat.toDigits 10 n).length != 1)) = false := by
  have hne : (Nat.toDigits 10 n).isEmpty = false := by
    simp [Nat.toDigits_ne_nil]
  rw [hne, Bool.false_or]
  rcases Nat.eq_zero_or_pos n with rfl | hpos
  · rfl
  · rw [beq_eq_false_iff_ne.2 (head?_toDigits_ne hpos), Bool.false_and]

theorem number?_natural (hn : n < Bits.limit 64) (h : EndsNumber rest) :
    number? (Nat.toDigits 10 n ++ rest) = some (.integer n, rest) := by
  have hsign (cs : List Char) : Nat.toDigits 10 n ++ rest ≠ '-' :: cs := by
    intro heq
    obtain ⟨d, ds, hds, hdigit⟩ := toDigits_eq_cons n
    rw [hds, List.cons_append] at heq
    rw [(List.cons.inj heq).1] at hdigit
    cases hdigit
  rw [number?]
  · simp [digits_toDigits n h, toDigits_isProper, fraction?_of_endsNumber h,
      exponent?_of_endsNumber h, decimal_toDigits, hn, guard]
  · exact hsign

theorem number?_negative (hpos : 0 < n) (hn : n ≤ Bits.limit 63) (h : EndsNumber rest) :
    number? ('-' :: Nat.toDigits 10 n ++ rest) = some (.integer (-n), rest) := by
  rw [List.cons_append, number?]
  simp [digits_toDigits n h, toDigits_isProper, fraction?_of_endsNumber h,
    exponent?_of_endsNumber h, decimal_toDigits, hpos, hn, guard]

theorem toList_toString (n : Int) :
    (0 ≤ n ∧ (toString n).toList = Nat.toDigits 10 n.natAbs) ∨
      (n < 0 ∧ (toString n).toList = '-' :: Nat.toDigits 10 n.natAbs) := by
  cases n with
  | ofNat k => exact .inl ⟨Int.natCast_nonneg k, Numeral.toList_toString k⟩
  | negSucc k =>
    refine .inr ⟨Int.negSucc_lt_zero k, ?_⟩
    show ("-" ++ (k + 1).repr).toList = _
    rw [String.toList_append]
    exact congrArg ('-' :: ·) (Numeral.toList_toString (k + 1))

/-- An integer is written in characters that need no escapes. -/
theorem isVerbatim_toString (n : Int) : isVerbatim (toString n) = true := by
  have hplain : ∀ c ∈ "0123456789-".toList, (escape c == [c]) = true :=
    List.all_eq_true.1 (by decide)
  have hdigit {c : Char} (hc : c ∈ Nat.toDigits 10 n.natAbs) : c ∈ "0123456789-".toList :=
    Numeral.mem_of_isDigit (Nat.isDigit_of_mem_toDigits (by decide) (by decide) hc)
  refine List.all_eq_true.2 fun c hc => hplain c ?_
  rcases toList_toString n with ⟨-, hdigits⟩ | ⟨-, hdigits⟩
  · rw [hdigits] at hc
    exact hdigit hc
  · rw [hdigits, List.mem_cons] at hc
    rcases hc with rfl | hc
    · decide
    · exact hdigit hc

/-- The integers of 64 bits, signed or not. -/
def isWord (n : Int) : Bool := -(Bits.limit 63 : Int) ≤ n && n < (Bits.limit 64 : Int)

theorem number?_toString {n : Int} (hn : isWord n = true) (h : EndsNumber rest) :
    number? ((toString n).toList ++ rest) = some (.integer n, rest) := by
  simp only [isWord, Bool.and_eq_true, decide_eq_true_eq] at hn
  rcases toList_toString n with ⟨hpos, hdigits⟩ | ⟨hneg, hdigits⟩
  · have hread := number?_natural (n := n.natAbs) (by omega) h
    rwa [← hdigits, Int.natAbs_of_nonneg hpos] at hread
  · have hread := number?_negative (n := n.natAbs) (by omega) (by omega) h
    rwa [← hdigits, Int.ofNat_natAbs_of_nonpos (Int.le_of_lt hneg), Int.neg_neg] at hread

/-- The number of a key is read back. -/
theorem integerText?_toString {n : Int} (hn : isWord n = true) :
    integerText? (toString n) = some n := by
  have hread := number?_toString hn endsNumber_nil
  rw [List.append_nil] at hread
  rw [integerText?, hread]

/-! ## Space -/

/-- The text consists of space. -/
def IsBlank (s : List Char) : Prop := ∀ c ∈ s, isSpace c = true

theorem skip_append {blank : List Char} (h : IsBlank blank) (s : List Char) :
    skip (blank ++ s) = skip s :=
  List.dropWhile_append_of_pos h

theorem skip_skip (s : List Char) : skip (skip s) = skip s := List.dropWhile_idempotent _ _

theorem value?_skip (fuel : Nat) (s : List Char) : value? fuel (skip s) = value? fuel s := by
  cases fuel with
  | zero => rfl
  | succ fuel => rw [value?, value?, skip_skip]

theorem items?_skip (fuel : Nat) (s : List Char) : items? fuel (skip s) = items? fuel s := by
  cases fuel with
  | zero => rfl
  | succ fuel => rw [items?, items?, value?_skip]

theorem entries?_skip (fuel : Nat) (s : List Char) : entries? fuel (skip s) = entries? fuel s := by
  cases fuel with
  | zero => rfl
  | succ fuel => rw [entries?, entries?, skip_skip]

theorem endsNumber_comma (rest : List Char) : EndsNumber (',' :: rest) := by
  intro c hc
  cases hc
  decide

/-- Numbers end in front of a comma or a bracket, whatever space is between. -/
theorem endsNumber_append {blank : List Char} (h : IsBlank blank) {c : Char}
    (hc : c ∈ [',', ']', '\x7d']) (rest : List Char) : EndsNumber (blank ++ c :: rest) := by
  have hspace : ∀ b ∈ [' ', '\n', '\t', '\r', ',', ']', '\x7d'],
      b.isDigit = false ∧ b ≠ '.' ∧ b ≠ 'e' ∧ b ≠ 'E' := by simp [Char.isDigit]
  intro b hb
  refine hspace b ?_
  cases blank with
  | nil =>
    rw [← Option.some.inj hb]
    exact List.mem_append_right [' ', '\n', '\t', '\r'] hc
  | cons a blank =>
    rw [← Option.some.inj hb]
    have ha := h a List.mem_cons_self
    simp only [isSpace, Bool.or_eq_true, beq_iff_eq] at ha
    rcases ha with ((rfl | rfl) | rfl) | rfl <;> simp

/-! ## Lists and objects -/

variable {fuel : Nat} {s : List Char}

theorem value?_of_bracket (h : skip s = ']' :: rest) : value? fuel s = none := by
  cases fuel with
  | zero => rfl
  | succ fuel =>
    rw [value?, h]
    rfl

theorem items?_of_bracket (h : skip s = ']' :: rest) : items? fuel s = none := by
  cases fuel with
  | zero => rfl
  | succ fuel => rw [items?, value?_of_bracket h]

theorem entries?_of_brace (h : skip s = '\x7d' :: rest) : entries? fuel s = none := by
  cases fuel with
  | zero => rfl
  | succ fuel =>
    rw [entries?, h]
    rfl

variable {d : Datum} {tail : List Char} {k : String}

theorem value?_append {blank : List Char} (h : IsBlank blank) (fuel : Nat) (s : List Char) :
    value? fuel (blank ++ s) = value? fuel s := by
  rw [← value?_skip, skip_append h, value?_skip]

theorem items?_append {blank : List Char} (h : IsBlank blank) (fuel : Nat) (s : List Char) :
    items? fuel (blank ++ s) = items? fuel s := by
  rw [← items?_skip, skip_append h, items?_skip]

theorem entries?_append {blank : List Char} (h : IsBlank blank) (fuel : Nat) (s : List Char) :
    entries? fuel (blank ++ s) = entries? fuel s := by
  rw [← entries?_skip, skip_append h, entries?_skip]

theorem items?_last (h : value? fuel s = some (d, tail ++ ']' :: rest)) (htail : IsBlank tail) :
    items? (fuel + 1) s = some ([d], rest) := by
  simp only [items?, h, skip_append htail]
  rfl

theorem items?_cons {ds : List Datum} (h : value? fuel s = some (d, ',' :: tail))
    (htail : items? fuel tail = some (ds, rest)) : items? (fuel + 1) s = some (d :: ds, rest) := by
  have hcomma : skip (',' :: tail) = ',' :: tail := rfl
  simp only [items?, h, hcomma, htail, Option.map_some]

/-- An entry begins with a key and a colon. -/
theorem entries?_quote (hk : isVerbatim k = true) :
    entries? (fuel + 1) ((quote k).toList ++ ':' :: s) =
      match value? fuel s with
      | none => none
      | some (d, rest) =>
        match skip rest with
        | '\x7d' :: rest => some ([(.text k, d)], rest)
        | ',' :: rest => (entries? fuel rest).map fun (es, rest) => ((.text k, d) :: es, rest)
        | _ => none := by
  have hquote : skip ((quote k).toList ++ ':' :: s) =
      '"' :: (k.toList.flatMap escape ++ '"' :: ':' :: s) := by
    rw [toList_quote, List.append_assoc]
    rfl
  rw [entries?, hquote]
  simp only [key?_quote hk]
  rfl

theorem entries?_last (hk : isVerbatim k = true)
    (h : value? fuel s = some (d, tail ++ '\x7d' :: rest)) (htail : IsBlank tail) :
    entries? (fuel + 1) ((quote k).toList ++ ':' :: s) = some ([(.text k, d)], rest) := by
  simp only [entries?_quote hk, h, skip_append htail]
  rfl

theorem entries?_cons (hk : isVerbatim k = true) {es : List (Datum × Datum)}
    (h : value? fuel s = some (d, ',' :: tail)) (htail : entries? fuel tail = some (es, rest)) :
    entries? (fuel + 1) ((quote k).toList ++ ':' :: s) = some ((.text k, d) :: es, rest) := by
  have hcomma : skip (',' :: tail) = ',' :: tail := rfl
  simp only [entries?_quote hk, h, hcomma, htail, Option.map_some]

theorem value?_list {ds : List Datum} (h : items? fuel s = some (ds, rest)) :
    value? (fuel + 1) ('[' :: s) = some (.list ds, rest) := by
  have hopen : skip ('[' :: s) = '[' :: s := rfl
  simp only [value?, hopen]
  split
  · rename_i hbracket
    rw [items?_of_bracket hbracket] at h
    cases h
  · rw [items?_skip, h]
    rfl

theorem value?_record {es : List (Datum × Datum)} (h : entries? fuel s = some (es, rest)) :
    value? (fuel + 1) ('\x7b' :: s) = some (.record es, rest) := by
  have hopen : skip ('\x7b' :: s) = '\x7b' :: s := rfl
  simp only [value?, hopen]
  split
  · rename_i hbrace
    rw [entries?_of_brace hbrace] at h
    cases h
  · rw [entries?_skip, h]
    rfl

theorem value?_integer {n : Int} (hn : isWord n = true) (h : EndsNumber rest) :
    value? (fuel + 1) ((toString n).toList ++ rest) = some (.integer n, rest) := by
  have hfirst {c : Char} (hc : c ∈ "0123456789-".toList) (cs : List Char) :
      value? (fuel + 1) (c :: cs) = number? (c :: cs) := by
    change c ∈ ['0', '1', '2', '3', '4', '5', '6', '7', '8', '9', '-'] at hc
    simp only [List.mem_cons, List.not_mem_nil, or_false] at hc
    rcases hc with rfl | rfl | rfl | rfl | rfl | rfl | rfl | rfl | rfl | rfl | rfl <;> rfl
  rw [← number?_toString hn h]
  rcases toList_toString n with ⟨-, hdigits⟩ | ⟨-, hdigits⟩
  · obtain ⟨c, cs, hcs, hdigit⟩ := toDigits_eq_cons n.natAbs
    rw [hdigits, hcs]
    exact hfirst (Numeral.mem_of_isDigit hdigit) _
  · rw [hdigits]
    exact hfirst (by decide) _

/-! ## Printing -/

/-- JSON can express the value: its integers have 64 bits, and its keys are texts that are written
as they are. -/
inductive IsPlain : Datum → Prop
  | null : IsPlain .null
  | flag (b : Bool) : IsPlain (.flag b)
  | integer {n : Int} (fits : isWord n = true) : IsPlain (.integer n)
  | text (t : String) : IsPlain (.text t)
  | list {ds : List Datum} (items : ∀ d ∈ ds, IsPlain d) : IsPlain (.list ds)
  | record {es : List (Datum × Datum)} (keys : ∀ e ∈ es, ∃ k, e.1 = .text k ∧ isVerbatim k = true)
      (values : ∀ e ∈ es, IsPlain e.2) : IsPlain (.record es)

/-- Nothing but space is added to a value. -/
structure Setting.IsSpaced (st : Setting) : Prop where
  newLine : ∀ depth, IsBlank (st.newLine depth).toList
  colon : ∃ blank, st.colon.toList = ':' :: blank ∧ IsBlank blank

theorem isSpaced_paged : paged.IsSpaced where
  newLine depth c hc := by
    rw [paged, String.toList_ofList, List.mem_cons] at hc
    rcases hc with rfl | hc
    · rfl
    · rw [List.eq_of_mem_replicate hc]
      rfl
  colon := ⟨[' '], rfl, by simp [IsBlank, isSpace]⟩

/-- The parts with commas between them, as characters. -/
def joined (st : Setting) (depth : Nat) (parts : List String) : List Char :=
  (("," ++ st.newLine depth).intercalate parts).toList

variable {st : Setting} {depth : Nat} {x y : String} {xs : List String}

theorem joined_singleton : joined st depth [x] = x.toList := by
  simp [joined]

theorem joined_cons_cons : joined st depth (x :: y :: xs) =
    x.toList ++ ',' :: (st.newLine depth).toList ++ joined st depth (y :: xs) := by
  simp [joined, String.toList_intercalate]

theorem toList_bracketed {first last : String} :
    (bracketed st depth first last (x :: xs)).toList = first.toList ++
      ((st.newLine (depth + 1)).toList ++ (joined st (depth + 1) (x :: xs) ++
        ((st.newLine depth).toList ++ last.toList))) := by
  simp [bracketed, joined, String.toList_append, List.append_assoc]

theorem toList_print_list (d : Datum) (ds : List Datum) :
    (print st depth (.list (d :: ds))).toList = '[' :: ((st.newLine (depth + 1)).toList ++
      (joined st (depth + 1) (printItems st (depth + 1) (d :: ds)) ++
        ((st.newLine depth).toList ++ [']']))) := by
  rw [print, printItems, toList_bracketed]
  rfl

theorem toList_print_record (e : Datum × Datum) (es : List (Datum × Datum)) :
    (print st depth (.record (e :: es))).toList = '\x7b' :: ((st.newLine (depth + 1)).toList ++
      (joined st (depth + 1) (printEntries st (depth + 1) (e :: es)) ++
        ((st.newLine depth).toList ++ ['\x7d']))) := by
  rw [print, printEntries, toList_bracketed]
  rfl

theorem toList_print_nil :
    (print st depth (.list [])).toList = ['[', ']'] ∧
      (print st depth (.record [])).toList = ['\x7b', '\x7d'] := by
  simp [print, printItems, printEntries, bracketed]

theorem toList_entry {t : String} {blank : List Char} (hcolon : st.colon.toList = ':' :: blank)
    (d : Datum) : (quote ((Datum.text t).text?.getD "") ++ st.colon ++ print st depth d).toList =
      (quote t).toList ++ ':' :: (blank ++ (print st depth d).toList) := by
  rw [String.toList_append, String.toList_append, hcolon, List.append_assoc, List.cons_append]
  rfl

theorem value?_text (t : String) :
    value? (fuel + 1) ((quote t).toList ++ rest) = some (.text t, rest) := by
  have htext : (quote t).toList ++ rest = '"' :: (t.toList.flatMap escape ++ '"' :: rest) := by
    rw [toList_quote, List.append_assoc]
    rfl
  rw [htext]
  exact string?_quote t rest

/-- The value is read from its text at any depth, whatever stands behind it. -/
def IsReadBack (st : Setting) (d : Datum) : Prop :=
  ∀ {fuel depth : Nat} {rest : List Char}, (print st depth d).toList.length < fuel →
    EndsNumber rest → value? fuel ((print st depth d).toList ++ rest) = some (d, rest)

theorem IsReadBack.of_succ (h : ∀ fuel depth rest, (print st depth d).toList.length ≤ fuel →
    EndsNumber rest → value? (fuel + 1) ((print st depth d).toList ++ rest) = some (d, rest)) :
    IsReadBack st d := by
  intro fuel depth rest hfuel hrest
  cases fuel with
  | zero => cases hfuel
  | succ fuel => exact h fuel depth rest (Nat.le_of_lt_succ hfuel) hrest

/-- The items of a list are read up to the bracket. -/
theorem items?_print (hst : st.IsSpaced) (d : Datum) (ds : List Datum)
    (h : ∀ d' ∈ d :: ds, IsReadBack st d')
    (hfuel : (joined st depth (printItems st depth (d :: ds))).length + 1 < fuel)
    (htail : IsBlank tail) :
    items? fuel (joined st depth (printItems st depth (d :: ds)) ++ (tail ++ ']' :: rest)) =
      some (d :: ds, rest) := by
  induction ds generalizing fuel d with
  | nil =>
    obtain ⟨fuel, rfl⟩ : ∃ n, fuel = n + 1 := ⟨fuel - 1, by omega⟩
    rw [printItems, printItems, joined_singleton] at hfuel ⊢
    refine items?_last (h d List.mem_cons_self (by omega) ?_) htail
    exact endsNumber_append htail (by decide) rest
  | cons d' ds ih =>
    obtain ⟨fuel, rfl⟩ : ∃ n, fuel = n + 1 := ⟨fuel - 1, by omega⟩
    obtain ⟨hd, hds⟩ := List.forall_mem_cons.1 h
    rw [printItems, printItems, joined_cons_cons, ← printItems] at hfuel ⊢
    simp only [List.length_append, List.length_cons] at hfuel
    simp only [List.append_assoc, List.cons_append]
    refine items?_cons (hd (by omega) ?_) ?_
    · exact endsNumber_comma _
    · rw [items?_append (hst.newLine _)]
      exact ih d' hds (by omega)

/-- The entries of an object are read up to the brace. -/
theorem entries?_print (hst : st.IsSpaced) (e : Datum × Datum) (es : List (Datum × Datum))
    (hkeys : ∀ e' ∈ e :: es, ∃ k, e'.1 = .text k ∧ isVerbatim k = true)
    (h : ∀ e' ∈ e :: es, IsReadBack st e'.2)
    (hfuel : (joined st depth (printEntries st depth (e :: es))).length + 1 < fuel)
    (htail : IsBlank tail) :
    entries? fuel (joined st depth (printEntries st depth (e :: es)) ++
      (tail ++ '\x7d' :: rest)) = some (e :: es, rest) := by
  obtain ⟨blank, hcolon, hblank⟩ := hst.colon
  induction es generalizing fuel e with
  | nil =>
    obtain ⟨fuel, rfl⟩ : ∃ n, fuel = n + 1 := ⟨fuel - 1, by omega⟩
    obtain ⟨k, d⟩ := e
    obtain ⟨t, rfl, ht⟩ := hkeys (k, d) List.mem_cons_self
    have hd : IsReadBack st d := h (.text t, d) List.mem_cons_self
    rw [printEntries, printEntries, joined_singleton, toList_entry hcolon] at hfuel ⊢
    simp only [List.length_append, List.length_cons] at hfuel
    simp only [List.append_assoc, List.cons_append]
    refine entries?_last ht ((value?_append hblank _ _).trans
      (hd (by omega) ?_)) htail
    exact endsNumber_append htail (by decide) rest
  | cons e' es ih =>
    obtain ⟨fuel, rfl⟩ : ∃ n, fuel = n + 1 := ⟨fuel - 1, by omega⟩
    obtain ⟨k, d⟩ := e
    obtain ⟨k', d'⟩ := e'
    obtain ⟨⟨t, rfl, ht⟩, hkeys'⟩ := List.forall_mem_cons.1 hkeys
    obtain ⟨hd, hes⟩ : IsReadBack st d ∧ ∀ x ∈ (k', d') :: es, IsReadBack st x.2 :=
      List.forall_mem_cons.1 h
    rw [printEntries, printEntries, joined_cons_cons, ← printEntries,
      toList_entry hcolon] at hfuel ⊢
    simp only [List.length_append, List.length_cons] at hfuel
    simp only [List.append_assoc, List.cons_append]
    refine entries?_cons ht ((value?_append hblank _ _).trans (hd (by omega) ?_)) ?_
    · exact endsNumber_comma _
    · rw [entries?_append (hst.newLine _)]
      exact ih (k', d') hkeys' hes (by omega)

theorem IsPlain.isReadBack (hst : st.IsSpaced) {d : Datum} (h : IsPlain d) : IsReadBack st d := by
  induction h with
  | null =>
    refine IsReadBack.of_succ fun fuel depth rest hfuel hrest => ?_
    rw [print]
    rfl
  | flag b =>
    refine IsReadBack.of_succ fun fuel depth rest hfuel hrest => ?_
    rw [print]
    cases b <;> rfl
  | integer hn =>
    refine IsReadBack.of_succ fun fuel depth rest hfuel hrest => ?_
    rw [print]
    exact value?_integer hn hrest
  | text t =>
    refine IsReadBack.of_succ fun fuel depth rest hfuel hrest => ?_
    rw [print]
    exact value?_text t
  | @list ds _ ih =>
    refine IsReadBack.of_succ fun fuel depth rest hfuel hrest => ?_
    cases ds with
    | nil =>
      rw [toList_print_nil.1]
      rfl
    | cons d ds =>
      rw [toList_print_list] at hfuel ⊢
      simp only [List.length_append, List.length_cons, List.length_nil] at hfuel
      simp only [List.append_assoc, List.cons_append, List.nil_append]
      apply value?_list
      rw [items?_append (hst.newLine _)]
      exact items?_print hst d ds ih (by omega) (hst.newLine _)
  | @record es hkeys _ ih =>
    refine IsReadBack.of_succ fun fuel depth rest hfuel hrest => ?_
    cases es with
    | nil =>
      rw [toList_print_nil.2]
      rfl
    | cons e es =>
      rw [toList_print_record] at hfuel ⊢
      simp only [List.length_append, List.length_cons, List.length_nil] at hfuel
      simp only [List.append_assoc, List.cons_append, List.nil_append]
      apply value?_record
      rw [entries?_append (hst.newLine _)]
      exact entries?_print hst e es hkeys ih (by omega) (hst.newLine _)

/-- **JSON.** What is printed with nothing but space added is read as it was. -/
theorem read?_print (hst : st.IsSpaced) {d : Datum} (h : IsPlain d) :
    read? (print st 0 d) = some d := by
  have hread : value? ((print st 0 d).length + 1) ((print st 0 d).toList ++ []) = some (d, []) :=
    h.isReadBack hst (Nat.lt_succ_self _) endsNumber_nil
  rw [List.append_nil] at hread
  rw [read?, hread]
  rfl

end RegisterMap.Json
