import RegisterMap.Description.Dialect
import RegisterMap.Proofs.Json

/-!
# Records

What is written as the record of a value is found in it again: the entries come in the order of the
names that the record may have, so none comes twice, and each is read as it was written, whether it
is always there or only when there is something to write.
-/

namespace RegisterMap

/-! ## Entries -/

/-- The entries have names of the record, in their order. -/
def Fields.Within (fs : Fields) (names : List String) : Prop :=
  (fs.map Prod.fst).Sublist names

namespace Fields

variable {fs gs : Fields} {ms ns : List String}

theorem within_all (fs : Fields) : fs.Within (fs.map Prod.fst) := List.Sublist.refl _

theorem within_present (n : String) (v : Option Datum) : Within (present n v) [n] := by
  cases v with
  | none => exact List.nil_sublist _
  | some d => exact List.Sublist.refl _

theorem within_presentList (n : String) (ds : List Datum) : Within (presentList n ds) [n] := by
  unfold presentList
  split
  · exact List.nil_sublist _
  · exact List.Sublist.refl _

theorem Within.append (h : fs.Within ms) (h' : gs.Within ns) : (fs ++ gs).Within (ms ++ ns) := by
  rw [Within, List.map_append]
  exact List.Sublist.append h h'

end Fields

theorem Fields.mapM_text? (fs : Fields) :
    (fs.map fun (k, v) => (Datum.text k, v)).mapM (fun (k, v) => k.text?.map (·, v)) = some fs := by
  induction fs with
  | nil => rfl
  | cons f fs ih =>
    rw [List.map_cons, List.mapM_cons, ih]
    rfl

theorem Fields.Within.filter_contains {fs : Fields} {names : List String} (h : fs.Within names) :
    fs.filter (fun (k, _) => names.contains k) = fs :=
  List.filter_eq_self.2 fun e he => by simpa using h.subset (List.mem_map_of_mem he)

theorem Datum.fields?_ofFields {fs : Fields} {names : List String} (h : fs.Within names)
    (hnames : names.Nodup) : fields? names (ofFields fs) = some fs := by
  have hnodup : (fs.map Prod.fst).Nodup := h.nodup hnames
  have hentries : (ofFields fs).entries? = some (fs.map fun (k, v) => (text k, v)) := rfl
  rw [fields?, hentries]
  simp only [Option.bind_eq_bind, Option.bind_some, fs.mapM_text?, h.filter_contains, guard, hnodup,
    if_true]
  rfl

/-- The entries of a record are found in it. -/
theorem Dialect.fields?_ofFields (dl : Dialect) {fs : Fields} {names : List String}
    (h : fs.Within names) (hnames : names.Nodup) : dl.fields? names (.ofFields fs) = some fs :=
  Datum.fields?_ofFields h hnames

@[simp] theorem lookup_entry (name key : String) (d : Datum) (fs : Fields) :
    List.lookup key ((name, d) :: fs) = if key = name then some d else fs.lookup key := by
  by_cases h : key = name
  · simp [h]
  · have hkey : (key == name) = false := beq_eq_false_iff_ne.2 h
    simp [List.lookup_cons, hkey, h]

@[simp] theorem lookup_present (name key : String) (v : Option Datum) :
    (present name v).lookup key = if key = name then v else none := by
  cases v with
  | none => simp [present]
  | some d => exact lookup_entry name key d []

/-- The list of items, if there are any. -/
def Datum.listUnlessEmpty (ds : List Datum) : Option Datum :=
  if ds.isEmpty then none else some (list ds)

@[simp] theorem lookup_presentList (name key : String) (ds : List Datum) :
    (presentList name ds).lookup key = if key = name then Datum.listUnlessEmpty ds else none := by
  cases ds with
  | nil => simp [presentList, Datum.listUnlessEmpty]
  | cons d ds => exact lookup_entry name key (.list (d :: ds)) []

/-! ## Values -/

namespace Datum

@[simp] theorem text?_text (s : String) : (text s).text? = some s := rfl

@[simp] theorem flag?_flag (b : Bool) : (flag b).flag? = some b := rfl

theorem natural?_integer {bits n : Nat} (h : n < Bits.limit bits) :
    natural? bits (integer n) = some n := by
  simp [natural?, h]

theorem signed?_integer {bits : Nat} {n : Int} (hlow : -(Bits.limit (bits - 1) : Int) ≤ n)
    (hhigh : n < (Bits.limit (bits - 1) : Int)) : signed? bits (integer n) = some n := by
  simp [signed?, hlow, hhigh]

variable {α : Type} (read : Datum → Option α) (write : α → Datum)

/-- The items of a list are read one by one. -/
theorem listOf?_map (f : α → α) {as : List α} (h : ∀ a ∈ as, read (write a) = some (f a)) :
    listOf? read (list (as.map write)) = some (as.map f) := by
  have hitems : (list (as.map write)).items? = some (as.map write) := rfl
  rw [listOf?, hitems, Option.bind_eq_bind, Option.bind_some]
  induction as with
  | nil => rfl
  | cons a as ih =>
    obtain ⟨ha, has⟩ := List.forall_mem_cons.1 h
    rw [List.map_cons, List.mapM_cons, ha, ih has rfl]
    rfl

theorem listOf?_list {as : List α} (h : ∀ a ∈ as, read (write a) = some a) :
    listOf? read (list (as.map write)) = some as := by
  have hread := listOf?_map read write id h
  rwa [List.map_id] at hread

/-- The list that is not written without items is read as one without items. -/
theorem elim_listUnlessEmpty {as : List α} (h : ∀ a ∈ as, read (write a) = some a) :
    (listUnlessEmpty (as.map write)).elim (some []) (listOf? read) = some as := by
  cases as with
  | nil => rfl
  | cons a as => exact listOf?_list read write h

/-- Reads a value that may say that there is none. -/
def unlessAbsent? (d : Datum) : Option (Option α) := do
  if ← d.absent? then return none
  return some (← read d)

/-- The value that is not written where there is none is read as none. -/
theorem elim_map (f : α → α) {a : Option α} (hthere : ∀ x, (write x).absent? = some false)
    (h : ∀ x ∈ a, read (write x) = some (f x)) :
    a.elim (some none) (unlessAbsent? read ∘ write) = some (a.map f) := by
  cases a with
  | none => rfl
  | some x => simp [unlessAbsent?, hthere, h]

theorem elim_unlessAbsent? {a : Option α} (hthere : ∀ x, (write x).absent? = some false)
    (h : ∀ x ∈ a, read (write x) = some x) :
    a.elim (some none) (unlessAbsent? read ∘ write) = some a := by
  have hread := elim_map read write id hthere h
  rwa [Option.map_id] at hread

@[simp] theorem elim_text? (t : Option String) :
    t.elim (some none) (unlessAbsent? text? ∘ text) = some t :=
  elim_unlessAbsent? text? text (fun _ => rfl) fun _ _ => rfl

end Datum

namespace Fields

variable {α : Type} (fs : Fields) (name : String) (read : Datum → Option α)

@[simp] theorem required_eq : fs.required name read = (fs.lookup name).bind read := rfl

@[simp] theorem withDefault_eq (default : α) :
    fs.withDefault name default read = (fs.lookup name).elim (some default) read := by
  unfold withDefault
  cases fs.lookup name <;> rfl

@[simp] theorem optional_eq :
    fs.optional name read = (fs.lookup name).elim (some none) (Datum.unlessAbsent? read) := by
  unfold Fields.optional
  cases fs.lookup name <;> rfl

end Fields

/-! ## Records in JSON -/

namespace Json

variable {n : Nat}

@[simp] theorem isPlain_flag (b : Bool) : IsPlain (.flag b) := .flag b

@[simp] theorem isPlain_text (t : String) : IsPlain (.text t) := .text t

@[simp] theorem isPlain_list_iff {ds : List Datum} :
    IsPlain (.list ds) ↔ ∀ d ∈ ds, IsPlain d :=
  ⟨fun h => by cases h; assumption, .list⟩

theorem isPlain_natural (h : n < Bits.limit 64) : IsPlain (.integer n) := by
  refine .integer ?_
  simp only [isWord, Bool.and_eq_true, decide_eq_true_eq]
  omega

theorem isPlain_natural32 (h : n < Bits.limit 32) : IsPlain (.integer n) :=
  isPlain_natural (Nat.lt_trans h (by decide))

/-- JSON can express the values of all entries. -/
def ArePlain (fs : Fields) : Prop := ∀ e ∈ fs, IsPlain e.2

@[simp] theorem arePlain_nil : ArePlain [] := nofun

@[simp] theorem arePlain_cons {name : String} {d : Datum} {fs : Fields} :
    ArePlain ((name, d) :: fs) ↔ IsPlain d ∧ ArePlain fs :=
  List.forall_mem_cons

@[simp] theorem arePlain_append {fs gs : Fields} :
    ArePlain (fs ++ gs) ↔ ArePlain fs ∧ ArePlain gs :=
  List.forall_mem_append

@[simp] theorem arePlain_present {name : String} {v : Option Datum} :
    ArePlain (present name v) ↔ ∀ d ∈ v, IsPlain d := by
  cases v <;> simp [present]

@[simp] theorem arePlain_presentList {name : String} {ds : List Datum} :
    ArePlain (presentList name ds) ↔ ∀ d ∈ ds, IsPlain d := by
  cases ds <;> simp [presentList]

/-- JSON can express a record with its values, whose names are all written as they are. -/
theorem isPlain_ofFields (names : List String) (hnames : names.all isVerbatim = true)
    {fs : Fields} (h : fs.Within names) (hvalues : ArePlain fs) :
    IsPlain (.ofFields fs) := by
  refine .record (fun e he => ?_) fun e he => ?_
  · obtain ⟨f, hf, rfl⟩ := List.mem_map.1 he
    exact ⟨f.1, rfl, List.all_eq_true.1 hnames _ (h.subset (List.mem_map_of_mem hf))⟩
  · obtain ⟨f, hf, rfl⟩ := List.mem_map.1 he
    exact hvalues f hf

end Json

end RegisterMap
