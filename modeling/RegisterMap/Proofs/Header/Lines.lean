import RegisterMap.Header
import RegisterMap.Proofs.Text

/-!
# Lines of a header

The text of a header is that of its lines (`Header.render_eq_ended`), and a line defines a macro,
opens the structure of a typedef, or does neither (`CText.definition?`). What each kind of part
defines with its lines is `Part.definitions_lines`; of the lines between these parts, none opens a
structure, and the macros that they define are few (`Header.definitions_front`).
-/

namespace RegisterMap

namespace CText

open Text (afterMark? padEnd)

/-! ## What a line defines -/

/-- Whether names of macros have such characters. -/
def isWordChar (c : Char) : Bool := c.isAlphanum || c == '_'

/-- The text has characters of names only. -/
def IsWord (t : String) : Prop := t.toList.all isWordChar = true

instance (t : String) : Decidable (IsWord t) := inferInstanceAs (Decidable (_ = _))

/-- The name that a text begins with. -/
def wordOf (t : String) : String := .ofList (t.toList.takeWhile isWordChar)

theorem wordOf_eq_self {t : String} (h : IsWord t) : wordOf t = t := by
  have htake : t.toList.takeWhile isWordChar = t.toList := by
    rw [← List.append_nil (t.toList), List.takeWhile_append_of_pos (List.all_eq_true.1 h)]
    rfl
  rw [wordOf, htake, String.ofList_toList]

/-- What a line defines: a macro of some name, or the structure of a typedef, which it opens. -/
inductive Definition
  | define (name : String)
  | struct (line : String)
  deriving DecidableEq

/-- What the line defines, if anything. The name of a macro ends where C ends it. -/
def definition? (l : String) : Option Definition :=
  match afterMark? "#define ".toList l.toList with
  | some rest => some (.define (wordOf (.ofList rest)))
  | none => if "typedef struct ".toList.isPrefixOf l.toList then some (.struct l) else none

/-- What lines define. -/
def definitions (ls : List String) : List Definition := ls.filterMap definition?

@[simp] theorem definitions_nil : definitions [] = [] := rfl

@[simp] theorem definitions_append (ls ms : List String) :
    definitions (ls ++ ms) = definitions ls ++ definitions ms := List.filterMap_append

theorem definitions_cons_some {l : String} {x : Definition} (h : definition? l = some x)
    (ls : List String) : definitions (l :: ls) = x :: definitions ls := List.filterMap_cons_some h

theorem definitions_cons_none {l : String} (h : definition? l = none) (ls : List String) :
    definitions (l :: ls) = definitions ls := List.filterMap_cons_none h

theorem definitions_flatMap {α : Type} (f : α → List String) (as : List α) :
    definitions (as.flatMap f) = as.flatMap fun a => definitions (f a) := by
  induction as with
  | nil => rfl
  | cons a as ih => rw [List.flatMap_cons, definitions_append, ih, List.flatMap_cons]

/-- Lines that define something each define it one after the other. -/
theorem definitions_map {α : Type} {line : α → String} {d : α → Definition}
    (h : ∀ a, definition? (line a) = some (d a)) (as : List α) :
    definitions (as.map line) = as.map d := by
  induction as with
  | nil => rfl
  | cons a as ih => rw [List.map_cons, definitions_cons_some (h a), ih, List.map_cons]

theorem definitions_eq_nil {ls : List String} (h : ∀ l ∈ ls, definition? l = none) :
    definitions ls = [] := List.filterMap_eq_nil_iff.2 h

theorem takeWhile_isWordChar_append {a r : List Char} (hr : r.head?.all (!isWordChar ·) = true) :
    (a ++ r).takeWhile isWordChar = a.takeWhile isWordChar := by
  induction a with
  | nil =>
    cases r with
    | nil => rfl
    | cons c r => simp_all
  | cons c a ih => simp only [List.cons_append, List.takeWhile_cons, ih]

/-- A directive defines the macro whose name is in front of other characters. -/
theorem definition?_define {l a r : String} (hl : l = "#define " ++ a ++ r)
    (hr : r.toList.head?.all (!isWordChar ·) = true) :
    definition? l = some (.define (wordOf a)) := by
  have hmark : afterMark? "#define ".toList l.toList = some (a.toList ++ r.toList) := by
    subst hl
    simp [afterMark?]
  rw [definition?, hmark]
  simp only [wordOf, String.toList_ofList, takeWhile_isWordChar_append hr]

/-- So it does where the name stands in a column. -/
theorem definition?_padded {l a r : String} (width : Nat)
    (hl : l = "#define " ++ padEnd width a ++ " " ++ r) :
    definition? l = some (.define (wordOf a)) := by
  refine definition?_define (r := .ofList (List.replicate (width - a.length) ' ') ++ " " ++ r) ?_ ?_
  · rw [hl, padEnd]
    simp only [String.append_assoc]
  · cases width - a.length <;> simp [List.replicate] <;> decide

theorem line_of_definition?_eq_struct {l m : String} (h : definition? m = some (.struct l)) :
    m = l := by
  unfold definition? at h
  split at h
  · cases h
  · split at h
    · cases h
      rfl
    · cases h

/-- A line that opens a structure is there as often as it is defined. -/
theorem count_definitions_struct {l : String} (h : definition? l = some (.struct l))
    (ls : List String) : (definitions ls).count (.struct l) = ls.count l := by
  induction ls with
  | nil => rfl
  | cons m ls ih =>
    cases hm : definition? m with
    | none =>
      have hne : m ≠ l := by
        rintro rfl
        rw [hm] at h
        cases h
      rw [definitions_cons_none hm, ih, List.count_cons_of_ne hne]
    | some x =>
      rw [definitions_cons_some hm]
      by_cases hl : m = l
      · subst hl
        rw [hm] at h
        cases h
        rw [List.count_cons_self, List.count_cons_self, ih]
      · have hne : x ≠ .struct l := by
          rintro rfl
          exact hl (line_of_definition?_eq_struct hm)
        rw [List.count_cons_of_ne hne, List.count_cons_of_ne hl, ih]

/-! ## Lines that define nothing -/

/-- The characters that lines which define something begin with. -/
def marks : List (List Char) :=
  [['#', 'd', 'e', 'f', 'i', 'n', 'e', ' '],
    ['t', 'y', 'p', 'e', 'd', 'e', 'f', ' ', 's', 't', 'r', 'u', 'c', 't', ' ']]

theorem definition?_of_marks {l : String} (h : (marks.all fun m => !m.isPrefixOf l.toList) = true) :
    definition? l = none := by
  simp only [marks, List.all_cons, List.all_nil, Bool.and_true, Bool.and_eq_true,
    Bool.not_eq_true'] at h
  have hdefine : "#define ".toList.isPrefixOf l.toList = false := h.1
  have hstruct : "typedef struct ".toList.isPrefixOf l.toList = false := h.2
  rw [definition?, afterMark?, hdefine, hstruct]
  rfl

/-- A line of known characters, which are not those of a mark. -/
theorem definition?_ofList {cs : List Char} (h : (marks.all fun m => !m.isPrefixOf cs) = true) :
    definition? (.ofList cs) = none :=
  definition?_of_marks (by rwa [String.toList_ofList])

theorem definitions_cons_ofList {cs : List Char} {ls : List String}
    (h : (marks.all fun m => !m.isPrefixOf cs) = true) (hls : definitions ls = []) :
    definitions (.ofList cs :: ls) = [] := by
  rw [definitions_cons_none (definition?_ofList h), hls]

/-- A text that begins otherwise than lines that define something, whatever comes behind it. -/
def isAside (t : String) : Bool :=
  marks.all fun m => !t.toList.isPrefixOf m && !m.isPrefixOf t.toList

theorem isAside_ofList {cs : List Char}
    (h : (marks.all fun m => !cs.isPrefixOf m && !m.isPrefixOf cs) = true) :
    isAside (.ofList cs) = true := by
  rwa [isAside, String.toList_ofList]

theorem isAside_append {t : String} (h : isAside t = true) (r : String) :
    isAside (t ++ r) = true := by
  refine List.all_eq_true.2 fun m hm => ?_
  have hapart := List.all_eq_true.1 h m hm
  simp only [Bool.and_eq_true, Bool.not_eq_true', ← Bool.not_eq_true, List.isPrefixOf_iff_prefix,
    String.toList_append] at hapart ⊢
  refine ⟨fun hp => hapart.1 ((List.prefix_append _ _).trans hp), fun hp => ?_⟩
  exact (List.prefix_or_prefix_of_prefix hp (List.prefix_append _ _)).elim hapart.2 hapart.1

theorem definition?_of_isAside {l : String} (h : isAside l = true) : definition? l = none := by
  refine definition?_of_marks (List.all_eq_true.2 fun m hm => ?_)
  exact (Bool.and_eq_true_iff.1 (List.all_eq_true.1 h m hm)).2

/-- Nothing is defined by a line that begins so. -/
theorem definition?_aside {cs : List Char}
    (h : (marks.all fun m => !cs.isPrefixOf m && !m.isPrefixOf cs) = true) (r : String) :
    definition? (.ofList cs ++ r) = none :=
  definition?_of_isAside (isAside_append (isAside_ofList h) r)

/-- Nothing is defined by one that has a text within, either. -/
theorem definition?_around {cs : List Char}
    (h : (marks.all fun m => !cs.isPrefixOf m && !m.isPrefixOf cs) = true) (t r : String) :
    definition? (.ofList cs ++ t ++ r) = none :=
  definition?_of_isAside (isAside_append (isAside_append (isAside_ofList h) t) r)

end CText

open CText

/-! ## Frames -/

namespace Frame

@[simp] theorem definitions_title (t : String) : definitions (title t) = [] := by
  have hrule : definition? rule = none := definition?_ofList (by decide)
  have hmiddle : definition? s!"/* ================{Text.padBoth 48 t}================ */" = none :=
    definition?_around (by decide) _ _
  rw [title, definitions_cons_none hrule, definitions_cons_none hmiddle,
    definitions_cons_none hrule]
  rfl

@[simp] theorem definitions_openGroup (group title brief : String) :
    definitions (openGroup group title brief) = [] := by
  have hgroup : definition? s!"* @addtogroup {group}_GROUP {title}" = none :=
    definition?_of_isAside
      (isAside_append (isAside_append (isAside_append (isAside_ofList (by decide)) _) _) _)
  have hbrief : definition? s!"* @brief {brief}" = none := definition?_aside (by decide) _
  rw [openGroup, definitions_cons_none (definition?_ofList (by decide)),
    definitions_cons_none hgroup, definitions_cons_none hbrief]
  exact definitions_cons_ofList (by decide) rfl

@[simp] theorem definitions_closeGroup (group : String) : definitions (closeGroup group) = [] := by
  have hend : definition? s!" * @\x7d */ /* End group {group}_GROUP " = none :=
    definition?_around (by decide) _ _
  rw [closeGroup, definitions_cons_none (definition?_ofList (by decide)),
    definitions_cons_none hend]
  exact definitions_cons_ofList (by decide) rfl

@[simp] theorem definitions_banner (t : String) : definitions (banner t) = [] := by
  have hdashes : definition? dashes = none := definition?_around (by decide) _ _
  have hmiddle : definition? s!"/* -----------     {Text.padEnd 50 t}   ----------- */" = none :=
    definition?_around (by decide) _ _
  rw [banner, definitions_cons_none (definition?_ofList (by decide)),
    definitions_cons_none hdashes, definitions_cons_none hmiddle, definitions_cons_none hdashes]
  exact definitions_cons_ofList (by decide) rfl

end Frame

/-! ## Texts of a header -/

namespace Vectors

theorem definition?_numberLine (i : Interrupt) : definition? (numberLine i) = none := by
  have hspace : isAside "  " = true := isAside_ofList (by decide)
  unfold numberLine
  refine definition?_of_isAside ?_
  iterate 6 refine isAside_append ?_ _
  exact hspace

theorem definitions_numberLines (is : List Interrupt) : definitions (numberLines is) = [] := by
  have hseparator : definition? separator = none := definition?_around (by decide) _ _
  have hlines (is : List Interrupt) : definitions (is.map numberLine) = [] :=
    definitions_eq_nil (List.forall_mem_map.2 fun i _ => definition?_numberLine i)
  induction is with
  | nil => rfl
  | cons i is ih =>
    rw [numberLines]
    split
    · rw [definitions_cons_none hseparator, definitions_cons_none (definition?_numberLine i),
        hlines]
    · rw [definitions_cons_none (definition?_numberLine i), ih]

@[simp] theorem definitions_enumeration (t : VectorTable) : definitions (enumeration t) = [] := by
  have hfirst : definitions
      ["/* -------------------------  Interrupt Number Definitions  ------------------------ */",
        ""] = [] := definitions_cons_ofList (by decide) (definitions_cons_ofList (by decide) rfl)
  have hopen : definitions ["", "/* Interrupt vector numbers */", "typedef enum \x7b",
      "/* ------------------------  Processor Exceptions Numbers  ------------------------- */"] =
        [] := by
    repeat refine definitions_cons_ofList (by decide) ?_
    rfl
  have hclose : definitions ["\x7d IRQn_Type;", ""] = [] :=
    definitions_cons_ofList (by decide) (definitions_cons_ofList (by decide) rfl)
  simp only [enumeration, definitions_append, hfirst, Frame.definitions_openGroup, hopen,
    definitions_numberLines, hclose, Frame.definitions_closeGroup, List.append_nil]

theorem definition?_prototypeLine (i : Interrupt) : definition? (prototypeLine i) = none := by
  have hextern : isAside "extern void " = true := isAside_ofList (by decide)
  unfold prototypeLine
  refine definition?_of_isAside ?_
  iterate 3 refine isAside_append ?_ _
  exact hextern

@[simp] theorem definitions_prototypes (t : VectorTable) : definitions (prototypes t) = [] := by
  have hfirst : definition?
      "/* -------------------------  Exception Handlers  ------------------------ */" = none :=
    definition?_ofList (by decide)
  have hblank : definitions [""] = [] := definitions_cons_ofList (by decide) rfl
  have hlines : definitions (t.toList.map prototypeLine) = [] :=
    definitions_eq_nil (List.forall_mem_map.2 fun i _ => definition?_prototypeLine i)
  rw [prototypes]
  simp only [List.cons_append, definitions_cons_none hfirst, definitions_append,
    Frame.definitions_openGroup, hblank, hlines, Frame.definitions_closeGroup, List.append_nil]

end Vectors

namespace Header

variable {s : Settings} {d : Device} {p : Peripheral}

theorem definitions_preamble (d : Device) :
    definitions (preamble d) = [.define (wordOf (includeGuard d.name))] := by
  have hfile : definition? s!" * @file     {d.name}.h" = none := definition?_around (by decide) _ _
  have hbrief : definition?
      s!" * @brief    CMSIS Cortex-M Peripheral Access Layer Header File for {d.name}." = none :=
    definition?_around (by decide) _ _
  have hequivalent : definition? (" *           Equivalent: " ++
      ", ".intercalate d.equivalentDevices) = none := definition?_aside (by decide) _
  have hversion : definition? s!" * @version  V{d.version}" = none :=
    definition?_aside (by decide) _
  have hifndef : definition? s!"#ifndef {includeGuard d.name}" = none :=
    definition?_aside (by decide) _
  have hdefine : definition? s!"#define {includeGuard d.name}" =
      some (.define (wordOf (includeGuard d.name))) :=
    definition?_define (r := "") (String.append_empty).symm rfl
  have hrest : definitions ["", "#include <stdint.h>", "#ifdef __cplusplus", "extern \"C\" \x7b",
      "#endif", ""] = [] := by
    repeat refine definitions_cons_ofList (by decide) ?_
    rfl
  unfold preamble
  rw [definitions_cons_none (definition?_ofList (by decide)), definitions_cons_none hfile,
    definitions_cons_none (definition?_ofList (by decide)), definitions_cons_none hbrief,
    definitions_cons_none hequivalent, definitions_cons_none (definition?_ofList (by decide)),
    definitions_cons_none hversion, definitions_cons_none (definition?_ofList (by decide)),
    definitions_cons_none (definition?_ofList (by decide)),
    definitions_cons_none (definition?_ofList (by decide)), definitions_cons_none hifndef,
    definitions_cons_some hdefine, hrest]

/-- The lines about a core define its macros. -/
theorem definitions_core (c : Cpu) :
    definitions (core c) = (coreMacros c).map fun m => .define (wordOf m.1) := by
  have hbrief : definition?
      s!" * @brief Configuration of the {Text.lower c.name} Processor and Core Peripherals" =
        none := definition?_around (by decide) _ _
  have hfirst : definitions ["/**",
      s!" * @brief Configuration of the {Text.lower c.name} Processor and Core Peripherals",
      " */"] = [] := by
    rw [definitions_cons_none (definition?_ofList (by decide)), definitions_cons_none hbrief]
    exact definitions_cons_ofList (by decide) rfl
  have hlast {l : String} (h : isAside l = true) : definitions [l, ""] = [] := by
    rw [definitions_cons_none (definition?_of_isAside h)]
    exact definitions_cons_ofList (by decide) rfl
  have hblank : definitions [""] = [] := definitions_cons_ofList (by decide) rfl
  rw [core, definitions_append, hlast ?_]
  · simp only [definitions_append, hfirst, Frame.definitions_openGroup, hblank,
      Frame.definitions_closeGroup, List.nil_append, List.append_nil]
    refine definitions_map (fun m => ?_) (coreMacros c)
    obtain ⟨name, value, comment⟩ := m
    refine definition?_padded 25
      (r := s!"{Text.padEnd 10 value} /**< {Text.padEnd 51 comment} */") ?_
    simp only [ToString.toString, String.append_assoc]
  · exact isAside_append (isAside_append (isAside_ofList (by decide)) _) _

theorem definitions_qualifiers : definitions qualifiers =
    ["__IO", "__I", "__O"].map fun name => .define (wordOf name) := by
  have hIO : definition? "#define __IO volatile" = some (.define (wordOf "__IO")) :=
    definition?_define (r := " volatile") (by decide +kernel) (by decide)
  have hI : definition? "#define __I volatile const" = some (.define (wordOf "__I")) :=
    definition?_define (r := " volatile const") (by decide +kernel) (by decide)
  have hO : definition? "#define __O volatile" = some (.define (wordOf "__O")) :=
    definition?_define (r := " volatile") (by decide +kernel) (by decide)
  have hplain {cs : List Char} (h : (marks.all fun m => !m.isPrefixOf cs) = true)
      (ls : List String) : definitions (.ofList cs :: ls) = definitions ls :=
    definitions_cons_none (definition?_ofList h) ls
  unfold qualifiers
  refine (hplain (by decide) _).trans ((definitions_cons_some hIO _).trans (congrArg _ ?_))
  iterate 3 refine (hplain (by decide) _).trans ?_
  refine (definitions_cons_some hI _).trans (congrArg _ ?_)
  iterate 3 refine (hplain (by decide) _).trans ?_
  refine (definitions_cons_some hO _).trans (congrArg _ ?_)
  repeat refine definitions_cons_ofList (by decide) ?_
  rfl

theorem definitions_unionsStart : definitions unionsStart = [] := by
  unfold unionsStart
  repeat refine definitions_cons_ofList (by decide) ?_
  rfl

theorem definitions_unionsEnd : definitions unionsEnd = [] := by
  unfold unionsEnd
  repeat refine definitions_cons_ofList (by decide) ?_
  rfl

theorem definitions_heading (p : Peripheral) : definitions (heading p) = [] := by
  have hbrief : definition? s!" * @brief {comment p.description}" = none :=
    definition?_aside (by decide) _
  have htitle (t : String) : definition?
      s!"/* ================           {Text.padEnd 30 t}       ================ */" = none :=
    definition?_around (by decide) _ _
  have hrule : definition? Frame.rule = none := definition?_ofList (by decide)
  unfold heading
  rw [definitions_cons_none (definition?_ofList (by decide)), definitions_cons_none hrule,
    definitions_cons_none (htitle _), definitions_cons_none hrule,
    definitions_cons_none (definition?_ofList (by decide)),
    definitions_cons_none (definition?_ofList (by decide)), definitions_cons_none hbrief]
  exact definitions_cons_ofList (by decide) rfl

theorem definitions_interruptList (p : Peripheral) :
    definitions (interruptList p) =
      if p.interrupts.isEmpty then [] else [.define (wordOf s!"{p.name}_IRQS")] := by
  unfold interruptList
  split
  · rfl
  · let numbers := ", ".intercalate (p.interrupts.map Interrupt.numberName)
    refine definitions_cons_some (definition?_define (a := s!"{p.name}_IRQS")
      (r := s!" \x7b {numbers} \x7d") ?_ ?_) []
    · rw [← String.toList_inj]
      simp [ToString.toString, numbers]
    · simp [ToString.toString]
      decide

theorem definitions_closing (d : Device) : definitions (closing d) = [] := by
  have hend : definition? s!"#endif  /* {includeGuard d.name} */" = none :=
    definition?_around (by decide) _ _
  have hfirst : definitions ["", "#ifdef __cplusplus", "\x7d", "#endif", "", ""] = [] := by
    repeat refine definitions_cons_ofList (by decide) ?_
    rfl
  have hclosing : closing d = ["", "#ifdef __cplusplus", "\x7d", "#endif", "", ""] ++
      [s!"#endif  /* {includeGuard d.name} */", ""] := rfl
  rw [hclosing, definitions_append, hfirst, definitions_cons_none hend, List.nil_append]
  exact definitions_cons_ofList (by decide) rfl

end Header

theorem FieldMacro.definitions_heading (r : Register) : definitions [heading r] = [] :=
  definitions_cons_none (definition?_around (by decide) _ _) []

/-! ## Parts -/

namespace Member

variable {indent : Nat}

/-- Spaces define nothing, whatever stands behind them. -/
theorem isAside_indent (indent : Nat) : isAside (Text.padEnd (indent + 1) "") = true := by
  have hspace : Text.padEnd (indent + 1) "" = " " ++ .ofList (List.replicate indent ' ') := by
    rw [← String.toList_inj]
    simp [Text.padEnd, List.replicate_succ]
  rw [hspace]
  exact isAside_append (isAside_ofList (by decide)) _

theorem definition?_annotated {line : String} (h : isAside line = true) (note : Note) :
    definition? (annotated line note) = none := by
  have hcode : isAside (Text.padEnd 47 line) = true := isAside_append h _
  exact definition?_of_isAside
    (isAside_append (isAside_append (isAside_append (isAside_append hcode _) _) _) _)

mutual

/-- The lines of a member define nothing. -/
theorem definitions_lines (indent : Nat) : (m : Member) →
    definitions (m.lines (indent + 1)) = []
  | .word qualifier type name count none => by
    have hline := isAside_append (isAside_indent indent)
      s!"{Text.padEnd 4 qualifier} {Text.padEnd 9 type.name} {declarator name count};"
    exact definitions_cons_none (definition?_of_isAside hline) []
  | .word qualifier type name count (some note) => by
    have hline := isAside_append (isAside_indent indent)
      s!"{Text.padEnd 4 qualifier} {Text.padEnd 9 type.name} {declarator name count};"
    exact definitions_cons_none (definition?_annotated hline note) []
  | .nested kind note members => by
    have hopen := definition?_annotated (isAside_append (isAside_indent indent) (opening kind)) note
    have hclose := definition?_of_isAside (isAside_append (isAside_indent indent) (closing kind))
    have hmembers := definitions_linesOf (indent + 3) members
    show definitions (annotated (Text.padEnd (indent + 1) "" ++ opening kind) note ::
      (linesOf (indent + 3 + 1) members ++ [Text.padEnd (indent + 1) "" ++ closing kind])) = []
    rw [definitions_cons_none hopen, definitions_append, hmembers, definitions_cons_none hclose]
    rfl

theorem definitions_linesOf (indent : Nat) : (ms : List Member) →
    definitions (linesOf (indent + 1) ms) = []
  | [] => rfl
  | m :: ms => by
    refine (definitions_append (m.lines (indent + 1)) (linesOf (indent + 1) ms)).trans ?_
    rw [definitions_lines indent m, definitions_linesOf indent ms]
    rfl

end

end Member

namespace FieldMacro

variable {s : Settings} {m : FieldMacro}

theorem definition?_line (name value comment : String) :
    definition? (line s!"#define {Text.padEnd 40 name} {value}" comment) =
      some (.define (wordOf name)) := by
  unfold line
  refine definition?_padded 40 (r := value ++ .ofList (List.replicate
    (100 - s!"#define {Text.padEnd 40 name} {value}".length) ' ') ++
      s!" /*!< {Text.padEnd 40 comment}*/") ?_
  rw [Text.padEnd]
  simp only [ToString.toString, String.append_assoc]

/-- A field has two macros, and a third one that places values of more than one bit. -/
theorem definitions_lines (s : Settings) (m : FieldMacro) :
    definitions (m.lines s) = .define (wordOf (m.maskName s)) ::
      .define (wordOf (m.positionName s)) ::
        if m.valueType.isSome then [.define (wordOf (m.name ++ "(x)"))] else [] := by
  have hmask := definition?_line (m.maskName s) (m.maskValue s) s!"{m.subject} Mask"
  have hposition := definition?_line (m.positionName s) (toString m.offset) s!"{m.subject} Position"
  refine (definitions_cons_some hmask _).trans (congrArg _ ?_)
  refine (definitions_cons_some hposition _).trans (congrArg _ ?_)
  cases m.valueType with
  | none => rfl
  | some t =>
    exact definitions_cons_some
      (definition?_line m.placementName (m.placement s t) s!"{m.subject} Field") []

end FieldMacro

/-- The line that opens the structure of a typedef. -/
def typedefLine (name : String) : String := s!"typedef struct {name}_Type \x7b"

/-- The line that makes a pointer of the typedef. -/
def pointerLine (peripheral name : String) : String :=
  let pointee := s!"volatile {name}_Type"
  s!"#define {Text.padEnd 30 peripheral} (({Text.padEnd 20 pointee} *) {peripheral}_BASE_PTR)"

theorem definition?_typedefLine (name : String) :
    definition? (typedefLine name) = some (.struct (typedefLine name)) := by
  have hline : (typedefLine name).toList =
      ['t', 'y', 'p', 'e', 'd', 'e', 'f', ' ', 's', 't', 'r', 'u', 'c', 't', ' '] ++
        (name.toList ++ "_Type \x7b".toList) := by
    unfold typedefLine
    simp only [ToString.toString, String.toList_append, List.append_assoc]
    rfl
  rw [definition?, Text.afterMark?, hline]
  rfl

namespace Part

variable {s : Settings}

theorem lines_typedef (name : String) (members : List Member) :
    (typedef name members).lines s =
      typedefLine name :: Member.linesOf 3 members ++ [s!"\x7d {name}_Type;", ""] := rfl

theorem lines_pointer (peripheral name : String) :
    (pointer peripheral name).lines s = [pointerLine peripheral name] := by
  rw [lines, pointerLine, List.cons.injEq, ← String.toList_inj]
  simp [pointee, baseName, ToString.toString]

/-- What a part of a header defines. -/
def definitions (s : Settings) : Part → List Definition
  | plain ls => CText.definitions ls
  | typedef name _ => [.struct (typedefLine name)]
  | fieldMacro m => .define (wordOf (m.maskName s)) :: .define (wordOf (m.positionName s)) ::
      if m.valueType.isSome then [.define (wordOf (m.name ++ "(x)"))] else []
  | accessMacro m => [.define (wordOf m.name)]
  | base peripheral _ => [.define (wordOf (peripheral ++ "_BASE_PTR"))]
  | pointer peripheral _ => [.define (wordOf peripheral)]

theorem definitions_lines (s : Settings) (p : Part) :
    CText.definitions (p.lines s) = p.definitions s := by
  cases p with
  | plain ls => rfl
  | typedef name members =>
    have hlast : definition? s!"\x7d {name}_Type;" = none :=
      definition?_around (by decide) _ _
    show CText.definitions (typedefLine name ::
      (Member.linesOf 3 members ++ [s!"\x7d {name}_Type;", ""])) = _
    rw [definitions_cons_some (definition?_typedefLine name), definitions_append,
      Member.definitions_linesOf 2, definitions_cons_none hlast]
    rfl
  | fieldMacro m => exact m.definitions_lines s
  | accessMacro m =>
    refine definitions_cons_some (definition?_padded 30
      (r := s!"({m.peripheral}->{AccessMacro.pathText m.path})") ?_) []
    rw [← String.toList_inj]
    simp [AccessMacro.line, ToString.toString]
  | base peripheral address =>
    refine definitions_cons_some (definition?_padded 30 (r := s!"0x{Text.hex address 8}UL") ?_) []
    rw [← String.toList_inj]
    simp [baseName, ToString.toString]
  | pointer peripheral name =>
    refine definitions_cons_some (definition?_padded 30
      (r := s!"(({Text.padEnd 20 (pointee name)} *) {baseName peripheral})") ?_) []
    rw [← String.toList_inj]
    simp [ToString.toString]

end Part

namespace Header

variable {s : Settings} {d : Device}

/-! ## The whole header -/

/-- The parts in front of the first peripheral. -/
def front (d : Device) : List Part :=
  let vectors := d.vectorTable.getD .empty
  [.plain <|
    preamble d ++ Vectors.enumeration vectors ++ Vectors.prototypes vectors ++
      Frame.title "Processor and Core Peripheral Section" ++
      ((d.cpu.map core).getD []) ++ qualifiers ++
      Frame.title "Device Specific Peripheral Section" ++ [""] ++ unionsStart]

/-- The parts behind the last peripheral, with the pointers of the peripherals. -/
def back (d : Device) (ps : List Peripheral) (pointers : List Part) : List Part :=
  [.plain (unionsEnd ++ [""] ++ Frame.title "Peripheral memory map")] ++
    ps.map (fun p => .base p.name p.baseAddress) ++
    [.plain ("" :: Frame.title "Peripheral declarations")] ++ pointers ++
    [.plain ("" :: ps.flatMap interruptList ++ closing d)]

/-- The pointers to peripherals. -/
def pointersOf (s : Settings) (d : Device) (ps : List Peripheral) : Except Failure (List Part) :=
  ps.mapM fun p => do return .pointer p.name (← d.structName p s.commonNames)

theorem parts_eq (s : Settings) (d : Device) : parts s d = do
    let described ← peripherals s d (included s d) {}
    let pointers ← pointersOf s d (included s d)
    return front d ++ described.1 ++ back d (included s d) pointers := by
  simp only [parts, front, back, pointersOf, List.append_assoc]

/-- The lines of the header of a device. -/
def lines (s : Settings) (d : Device) : Except Failure (List String) := do
  return (← parts s d).flatMap (Part.lines s)

/-- The text of a header is that of its lines. -/
theorem render_eq_ended (s : Settings) (d : Device) :
    render s d = (lines s d).map Text.ended := by
  unfold render lines
  cases parts s d <;> rfl

/-- The names of the macros in front of the first peripheral. -/
def frontMacros (d : Device) : List String :=
  includeGuard d.name ::
    (((d.cpu.map coreMacros).getD []).map Prod.fst ++ ["__IO", "__I", "__O"])

theorem definitions_front (s : Settings) (d : Device) :
    (front d).flatMap (Part.definitions s) =
      (frontMacros d).map fun name => .define (wordOf name) := by
  have hcore : definitions ((d.cpu.map core).getD []) =
      (((d.cpu.map coreMacros).getD []).map Prod.fst).map fun name => .define (wordOf name) := by
    cases d.cpu with
    | none => rfl
    | some c =>
      rw [Option.map_some, Option.getD_some, definitions_core, Option.map_some, Option.getD_some,
        List.map_map]
      rfl
  have hblank : definitions [""] = [] := definitions_cons_ofList (by decide) rfl
  rw [front, List.flatMap_singleton, Part.definitions]
  simp only [definitions_append, definitions_preamble, Vectors.definitions_enumeration,
    Vectors.definitions_prototypes, Frame.definitions_title, hcore, hblank,
    definitions_unionsStart, List.append_nil, frontMacros, List.map_cons, List.map_append,
    definitions_qualifiers, List.cons_append, List.nil_append]

/-- The names of the macros behind the last peripheral. -/
def backMacros (ps : List Peripheral) : List String :=
  ps.map (·.name ++ "_BASE_PTR") ++ ps.map Peripheral.name ++
    (ps.filter (!·.interrupts.isEmpty)).map (·.name ++ "_IRQS")

theorem definitions_interruptLists (ps : List Peripheral) :
    definitions (ps.flatMap interruptList) =
      ((ps.filter (!·.interrupts.isEmpty)).map (·.name ++ "_IRQS")).map
        fun name => .define (wordOf name) := by
  induction ps with
  | nil => rfl
  | cons p ps ih =>
    rw [List.flatMap_cons, definitions_append, definitions_interruptList, ih]
    cases hp : p.interrupts.isEmpty <;> simp [hp, ToString.toString]

theorem definitions_back (s : Settings) (d : Device) (ps : List Peripheral)
    (pointers : List Part) (hpointers : pointers.flatMap (Part.definitions s) =
      ps.map fun p => .define (wordOf p.name)) :
    (back d ps pointers).flatMap (Part.definitions s) =
      (backMacros ps).map fun name => .define (wordOf name) := by
  have hmap : definitions (unionsEnd ++ [""] ++ Frame.title "Peripheral memory map") = [] := by
    rw [definitions_append, definitions_append, definitions_unionsEnd, Frame.definitions_title,
      List.nil_append, List.append_nil]
    exact definitions_cons_ofList (by decide) rfl
  have hdeclarations : definitions ("" :: Frame.title "Peripheral declarations") = [] := by
    rw [definitions_cons_none (definition?_ofList (by decide)), Frame.definitions_title]
  have hlists : definitions ("" :: ps.flatMap interruptList ++ closing d) =
      ((ps.filter (!·.interrupts.isEmpty)).map (·.name ++ "_IRQS")).map
        fun name => .define (wordOf name) := by
    rw [List.cons_append, definitions_cons_none (definition?_ofList (by decide)),
      definitions_append, definitions_interruptLists, definitions_closing, List.append_nil]
  have hbases : (ps.map fun p => Part.base p.name p.baseAddress).flatMap (Part.definitions s) =
      (ps.map (·.name ++ "_BASE_PTR")).map fun name => .define (wordOf name) := by
    rw [List.flatMap_map, List.map_map]
    exact List.map_eq_flatMap.symm
  rw [back]
  simp only [List.flatMap_append, List.flatMap_singleton, hbases, hpointers, Part.definitions,
    hmap, hdeclarations, hlists, List.nil_append, List.append_nil, backMacros, List.map_append,
    List.map_map, Function.comp_def]

end Header

end RegisterMap
