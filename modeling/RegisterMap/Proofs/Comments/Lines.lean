import RegisterMap.Proofs.Comments.Names
import RegisterMap.Proofs.Comments.Undescribed

/-!
# Lines of a header

The lines of a header in turn lead through code and comments: each of them, or a few of them
together, from code to code. Where a line has a description in a comment, it is read like the line
with any other description.
-/

namespace RegisterMap

open Text (ended ended_cons ended_append)

namespace CText

open Reader (code block)

section Rules

variable {q r t : Reader} {l m : String} {ls ms : List String}

theorem leads_newline : Leads code code "\n" ∧ Leads block block "\n" := by decide

theorem Alike.newline (h : Alike q code l m) : Alike q code (l ++ "\n") (m ++ "\n") :=
  h.append leads_newline.1.alike

theorem Leads.newline (h : Leads q code l) : Leads q code (l ++ "\n") := h.append leads_newline.1

theorem Leads.inside (h : Leads q block l) : Leads q block (l ++ "\n") := h.append leads_newline.2

/-- In a comment there may be an inert text. -/
theorem Leads.put (hl : Leads q block l) (hm : IsInert m) : Leads q block (l ++ m) :=
  hl.append hm.block

/-- So there may be on a line of it. -/
theorem Leads.fill {n : String} (hl : Leads q block l) (hn : IsInert n) (hm : IsInert m) :
    Leads q block (l ++ n ++ m ++ "\n") :=
  ((hl.put hn).put hm).inside

theorem Leads.cons (hl : Leads q r (l ++ "\n")) (hls : Leads r t (ended ls)) :
    Leads q t (ended (l :: ls)) := by
  rw [ended_cons]
  exact hl.append hls

theorem Leads.lines (hls : Leads q r (ended ls)) (hms : Leads r t (ended ms)) :
    Leads q t (ended (ls ++ ms)) := by
  rw [ended_append]
  exact hls.append hms

/-- Lines that lead from code to code one by one do so together. -/
theorem leads_ended (h : ∀ l ∈ ls, Leads code code l) : Leads code code (ended ls) := by
  induction ls with
  | nil => rfl
  | cons l ls ih =>
    obtain ⟨hl, hls⟩ := List.forall_mem_cons.1 h
    exact hl.newline.cons (ih hls)

theorem Alike.cons {l' : String} {ls' : List String} (hl : Alike q r (l ++ "\n") (l' ++ "\n"))
    (hls : Alike r t (ended ls) (ended ls')) : Alike q t (ended (l :: ls)) (ended (l' :: ls')) := by
  rw [ended_cons, ended_cons]
  exact hl.append hls

theorem Alike.lines {ls' ms' : List String} (hls : Alike q r (ended ls) (ended ls'))
    (hms : Alike r t (ended ms) (ended ms')) :
    Alike q t (ended (ls ++ ms)) (ended (ls' ++ ms')) := by
  rw [ended_append, ended_append]
  exact hls.append hms

/-- Lines that are made alike one by one are alike together. -/
theorem alike_ended_map {α : Type} {f g : α → String} {as : List α}
    (h : ∀ a ∈ as, Alike code code (f a) (g a)) :
    Alike code code (ended (as.map f)) (ended (as.map g)) := by
  induction as with
  | nil => exact Leads.alike rfl
  | cons a as ih =>
    obtain ⟨ha, has⟩ := List.forall_mem_cons.1 h
    exact ha.newline.cons (ih has)

end Rules

/-- Descriptions at the end of a comment are read alike. -/
theorem alike_closing (width : Nat) (s t : String) :
    Alike block code (Text.padEnd width (comment s) ++ " */")
      (Text.padEnd width (comment t) ++ " */") := by
  have hsplit (x : String) : x ++ " */" = x ++ " " ++ "*/" := by
    rw [String.append_assoc]
    rfl
  have hclose : Leads block code "*/" := by decide
  rw [hsplit, hsplit]
  exact (alike_padded width s t).append hclose.alike

/-- Descriptions in a comment of their own are read alike. -/
theorem alike_brief (s t : String) :
    Alike code code (ended ["/**", s!" * @brief {comment s}", " */"])
      (ended ["/**", s!" * @brief {comment t}", " */"]) := by
  have hsplit (x : String) : ended ["/**", s!" * @brief {x}", " */"] =
      "/**\n * @brief " ++ (x ++ "\n ") ++ "*/\n" := by
    rw [← String.toList_inj]
    simp [ToString.toString]
  have hopen : Leads code block "/**\n * @brief " := leads_ofList (by decide)
  have hclose : Leads block code "*/\n" := by decide
  rw [hsplit, hsplit]
  exact (hopen.alike.append (alike_lines s t)).append hclose.alike

end CText

open CText CText.Reader

variable {n t : String}

/-! ## Frames -/

namespace Frame

theorem leads_title (h : IsInert t) : Leads code code (ended (title t)) := by
  have hopen : Leads code block "/* ================" := leads_ofList (by decide)
  have hclose : Leads block code "================ */" := leads_ofList (by decide)
  have hrule : Leads code code rule := leads_ofList (by decide)
  have ht : IsInert (Text.padBoth 48 t) :=
    isInert_append.2 ⟨isInert_append.2 ⟨isInert_spaces _, h⟩, isInert_spaces _⟩
  have hmiddle := (hopen.append ht.block).append hclose
  refine leads_ended (List.forall_mem_cons.2 ⟨hrule, List.forall_mem_cons.2 ⟨hmiddle, ?_⟩⟩)
  exact List.forall_mem_cons.2 ⟨hrule, List.forall_mem_singleton.2 rfl⟩

theorem leads_openGroup {brief : String} (hgroup : IsInert n) (htitle : IsInert t)
    (hbrief : IsInert brief) : Leads code code (ended (openGroup n t brief)) := by
  have hadd : Leads block block "* @addtogroup " := leads_ofList (by decide)
  have hsuffix : IsInert "_GROUP " := isInert_ofList (by decide)
  have hmark : Leads block block "* @brief " := leads_ofList (by decide)
  have hfirst : Leads code block ("/**" ++ "\n") := by decide
  have hlast : Leads block code (ended ["* @\x7b", "*/"]) := by decide
  have hgroupLine := ((hadd.append hgroup.block).append hsuffix.block).append htitle.block
  exact hfirst.cons (hgroupLine.inside.cons ((hmark.append hbrief.block).inside.cons hlast))

theorem leads_closeGroup (h : IsInert n) : Leads code code (ended (closeGroup n)) := by
  have hfirst : Leads code block ("/**" ++ "\n") := by decide
  have hopen : Leads block block " * @\x7d */ /* End group " := leads_ofList (by decide)
  have hsuffix : IsInert "_GROUP " := isInert_ofList (by decide)
  have hlast : Leads block code (ended [" */"]) := by decide
  exact hfirst.cons (((hopen.append h.block).append hsuffix.block).inside.cons hlast)

theorem leads_banner (h : Leads block block t) : Leads code code (ended (banner t)) := by
  have hopen : Leads code block "/* -----------     " := leads_ofList (by decide)
  have hclose : Leads block code "   ----------- */" := leads_ofList (by decide)
  have hdashes : Leads code code dashes :=
    Leads.append (r := block) (.append (r := block) (by decide) (leads_ofList (by decide)))
      (by decide)
  have ht : Leads block block (Text.padEnd 50 t) := h.append (isInert_spaces _).block
  have hmiddle := (hopen.append ht).append hclose
  refine leads_ended (List.forall_mem_cons.2 ⟨rfl, List.forall_mem_cons.2 ⟨hdashes, ?_⟩⟩)
  exact List.forall_mem_cons.2 ⟨hmiddle, List.forall_mem_cons.2 ⟨hdashes, by decide⟩⟩

end Frame

/-! ## The front of a header -/

namespace Vectors

variable {i : Interrupt}

/-- The number of an interrupt is written alike under all descriptions. -/
theorem alike_numberLine (h : IsInert i.name) (s : String) :
    Alike code code (numberLine { i with description := s }) (numberLine i) := by
  have hcode : Leads code code
      s!"  {Text.padEnd 29 i.numberName} = {Text.padStart 3 (toString i.index)},   " := by
    have hname : IsInert i.numberName := isInert_append.2 ⟨h, isInert_ofList (by decide)⟩
    have hindex := (isInert_toString_int i.index).padStart 3
    refine IsInert.code ?_
    simp only [ToString.toString, isInert_append]
    exact ⟨⟨⟨⟨by decide, hname.padEnd 29⟩, by decide⟩, hindex⟩, by decide⟩
  have hnote : Leads code block s!"/**< {Text.padStart 3 (toString (i.index + 16))} " := by
    have hopen : Leads code block "/**< " := by decide
    have hindex := (isInert_toString_int (i.index + 16)).padStart 3
    exact (hopen.append hindex.block).append (by decide)
  exact (hcode.append hnote).alike.append (alike_closing 80 s i.description)

/-- So is the prototype of its handler. -/
theorem alike_prototypeLine (h : IsInert i.handlerName) (s : String) :
    Alike code code (prototypeLine { i with description := s }) (prototypeLine i) := by
  have hcode : Leads code block
      ("extern void " ++ Text.padEnd 38 (i.handlerName ++ "(void);") ++ "   /**< ") := by
    have hvoid : Leads code code "extern void " := leads_ofList (by decide)
    have hcall : IsInert (i.handlerName ++ "(void);") :=
      isInert_append.2 ⟨h, isInert_ofList (by decide)⟩
    exact (hvoid.append (hcall.padEnd 38).code).append (by decide)
  exact hcode.alike.append (alike_closing 80 s i.description)

theorem alike_numberLines {is : List Interrupt} (h : ∀ i ∈ is, IsInert i.name) :
    Alike code code (ended (numberLines (is.map Interrupt.undescribed)))
      (ended (numberLines is)) := by
  have hlines (is : List Interrupt) (h : ∀ i ∈ is, IsInert i.name) :
      Alike code code (ended ((is.map Interrupt.undescribed).map numberLine))
        (ended (is.map numberLine)) := by
    rw [List.map_map]
    exact alike_ended_map fun i hi => alike_numberLine (h i hi) ""
  have hopen : Leads code block "/* ----------------------   " := leads_ofList (by decide)
  have hseparator : Leads code code separator :=
    (hopen.put ((isInert_ofList (by decide)).padEnd 36)).append
      (leads_ofList (by decide))
  induction is with
  | nil => exact Leads.alike rfl
  | cons i is ih =>
    obtain ⟨hi, his⟩ := List.forall_mem_cons.1 h
    have hline := (alike_numberLine hi "").newline
    rw [List.map_cons, numberLines, numberLines, show i.undescribed.index = i.index from rfl]
    split
    · exact hseparator.newline.alike.cons (hline.cons (hlines is his))
    · exact hline.cons (ih his)

variable {t : VectorTable}

theorem toList_undescribed (t : VectorTable) :
    t.undescribed.toList = t.toList.map Interrupt.undescribed := by
  simp only [VectorTable.toList, VectorTable.undescribed, List.map_map, Function.comp_def]

theorem alike_enumeration (h : t.HasOrdinaryTexts) :
    Alike code code (ended (enumeration t.undescribed)) (ended (enumeration t)) := by
  have hnames : ∀ i ∈ t.toList, IsInert i.name := by
    intro i hi
    obtain ⟨e, he, rfl⟩ := List.mem_map.1 hi
    exact (h e he).1.isInert
  have hgroup : IsInert "Interrupt_vector_numbers" := isInert_ofList (by decide)
  have hopen := Frame.leads_openGroup hgroup
    (isInert_ofList (by decide) : IsInert "Interrupt vector numbers")
    (isInert_ofList (by decide) : IsInert "Vector numbers required for NVIC functions")
  have hclose := Frame.leads_closeGroup hgroup
  unfold enumeration
  rw [toList_undescribed]
  refine .lines (.lines (.lines (.lines (.lines ?_ hopen.alike) ?_) (alike_numberLines hnames)) ?_)
    hclose.alike
  all_goals
    refine Leads.alike (leads_ended ?_)
    repeat refine List.forall_mem_cons.2 ⟨leads_ofList (by decide), ?_⟩
    exact List.forall_mem_nil _

theorem alike_prototypes (h : t.HasOrdinaryTexts) :
    Alike code code (ended (prototypes t.undescribed)) (ended (prototypes t)) := by
  have hlines : Alike code code (ended (t.undescribed.toList.map prototypeLine))
      (ended (t.toList.map prototypeLine)) := by
    rw [toList_undescribed, List.map_map]
    refine alike_ended_map fun i hi => ?_
    obtain ⟨e, he, rfl⟩ := List.mem_map.1 hi
    exact alike_prototypeLine (Interrupt.isOrdinary_handlerName (h e he).1 (h e he).2).isInert ""
  have hgroup : IsInert "Interrupt_handler_prototypes" := isInert_ofList (by decide)
  have hopen := Frame.leads_openGroup hgroup
    (isInert_ofList (by decide) : IsInert "Interrupt handler prototypes")
    (isInert_ofList (by decide) : IsInert "Prototypes for interrupt handlers")
  have hclose := Frame.leads_closeGroup hgroup
  have hfirst : Leads code code
      "/* -------------------------  Exception Handlers  ------------------------ */" :=
    leads_ofList (by decide)
  have hblank : Alike code code (ended [""]) (ended [""]) := Leads.alike (by decide)
  unfold prototypes
  exact .lines (.lines (.lines (.lines (.cons hfirst.newline.alike hopen.alike) hblank) hlines)
    hblank) hclose.alike

end Vectors

namespace Header

/-! ### Fixed lines -/

theorem leads_qualifiers : Leads code code (ended qualifiers) := by
  refine leads_ended ?_
  unfold qualifiers
  repeat refine List.forall_mem_cons.2 ⟨leads_ofList (by decide), ?_⟩
  exact List.forall_mem_nil _

theorem leads_unionsStart : Leads code code (ended unionsStart) := by
  refine leads_ended ?_
  unfold unionsStart
  repeat refine List.forall_mem_cons.2 ⟨leads_ofList (by decide), ?_⟩
  exact List.forall_mem_nil _

theorem leads_unionsEnd : Leads code code (ended unionsEnd) := by
  refine leads_ended ?_
  unfold unionsEnd
  repeat refine List.forall_mem_cons.2 ⟨leads_ofList (by decide), ?_⟩
  exact List.forall_mem_nil _

/-! ### The top and the bottom -/

variable {d : Device}

theorem isInert_intercalate {sep : String} {ts : List String} (hsep : IsInert sep)
    (h : ∀ t ∈ ts, IsInert t) : IsInert (sep.intercalate ts) := by
  intro c hc
  rw [String.toList_intercalate] at hc
  rcases Text.mem_intercalate hc with hc | ⟨x, hx, hc⟩
  · exact hsep c hc
  · obtain ⟨t, ht, rfl⟩ := List.mem_map.1 hx
    exact h t ht c hc

theorem isInert_includeGuard {n : String} (h : IsOrdinary n) : IsInert (includeGuard n) :=
  isInert_append.2 ⟨isInert_ofList (by decide), h.identifier.upper⟩

theorem leads_preamble (h : d.HasOrdinaryTexts) : Leads code code (ended (preamble d)) := by
  have hname := h.name.isInert
  have hguard := isInert_includeGuard h.name
  have hdevices : IsInert (", ".intercalate d.equivalentDevices) :=
    isInert_intercalate (by decide) fun n hn => (h.equivalentDevices n hn).isInert
  have hstar : Leads block block (" *" ++ "\n") := by decide
  have hequivalent : Leads block block
      (" *           Equivalent: " ++ ", ".intercalate d.equivalentDevices) :=
    (show Leads block block " *           Equivalent: " from leads_ofList (by decide)).put hdevices
  have hversion : Leads block block s!" * @version  V{d.version}" :=
    (show Leads block block " * @version  V" from leads_ofList (by decide)).put h.version.isInert
  have hifndef : IsInert s!"#ifndef {includeGuard d.name}" :=
    isInert_append.2 ⟨by decide, hguard⟩
  have hdefine : IsInert s!"#define {includeGuard d.name}" :=
    isInert_append.2 ⟨by decide, hguard⟩
  -- the comment at the top
  refine .cons (r := block)
      (.append (r := (.star, false)) (leads_ofList (by decide)) (by decide)) <|
    .cons (.fill (leads_ofList (by decide)) hname (by decide)) <| .cons hstar <|
    .cons (.fill (leads_ofList (by decide)) hname (by decide)) <| .cons hequivalent.inside <|
    .cons hstar <| .cons hversion.inside <| .cons hstar ?_
  -- the end of it and the guard
  refine .cons (leads_ofList (by decide) : Leads block code _).newline <|
    .cons leads_newline.1 <|
    .cons hifndef.code.newline <| .cons hdefine.code.newline ?_
  refine leads_ended ?_
  repeat refine List.forall_mem_cons.2 ⟨leads_ofList (by decide), ?_⟩
  exact List.forall_mem_nil _

theorem leads_closing (h : d.HasOrdinaryTexts) : Leads code code (ended (closing d)) := by
  have hopen : Leads code block "#endif  /* " := by decide
  have hguard := hopen.put (isInert_includeGuard h.name)
  have hend : Leads code code s!"#endif  /* {includeGuard d.name} */" :=
    hguard.append (by decide)
  have hfirst : Leads code code (ended ["", "#ifdef __cplusplus", "\x7d", "#endif", "", ""]) := by
    refine leads_ended ?_
    repeat refine List.forall_mem_cons.2 ⟨leads_ofList (by decide), ?_⟩
    exact List.forall_mem_nil _
  exact hfirst.lines (hend.newline.cons (by decide))

/-! ### Cores -/

theorem isInert_revisionNumber (revision : String) : IsInert (revisionNumber revision) := by
  unfold revisionNumber
  split
  · split
    · rename_i r p hdigits
      obtain ⟨hr, hp⟩ := (Bool.and_eq_true _ _).mp hdigits
      have hdigit {c : Char} (hc : c.isDigit = true) : IsInert (toString c) := by
        have hordinary : isOrdinary c = true := by simp [isOrdinary, Char.isAlphanum, hc]
        show IsInert (String.singleton c)
        simpa [IsInert] using (isInert_of_isOrdinary hordinary).1
      exact isInert_append.2 ⟨isInert_append.2 ⟨isInert_append.2 ⟨by decide, hdigit hr⟩,
        by decide⟩, hdigit hp⟩
    · decide
  · decide

theorem isInert_of_mem_coreMacros {c : Cpu} {name value comment : String}
    (h : (name, value, comment) ∈ coreMacros c) :
    IsInert name ∧ IsInert value ∧ IsInert comment := by
  have hflag (b : Bool) : IsInert (flag b) := by cases b <;> decide
  have hrevisionName : IsInert (revisionMacro c) := by
    unfold revisionMacro
    split
    · decide
    · split <;> decide
  have hrevision := isInert_revisionNumber c.revision
  have hbits := isInert_toString c.nvicPrioBits
  simp only [coreMacros, List.mem_cons, Prod.mk.injEq, List.not_mem_nil, or_false] at h
  rcases h with ⟨rfl, rfl, rfl⟩ | ⟨rfl, rfl, rfl⟩ | ⟨rfl, rfl, rfl⟩ | ⟨rfl, rfl, rfl⟩ |
    ⟨rfl, rfl, rfl⟩ | ⟨rfl, rfl, rfl⟩
  · exact ⟨hrevisionName, hrevision, by decide⟩
  · exact ⟨by decide, hflag _, by decide⟩
  · exact ⟨by decide, hbits, isInert_ofList (by decide)⟩
  · exact ⟨by decide, hflag _, isInert_ofList (by decide)⟩
  · exact ⟨by decide, hflag _, by decide⟩
  · exact ⟨by decide, hflag _, isInert_ofList (by decide)⟩

theorem leads_coreMacros (c : Cpu) :
    Leads code code (ended ((coreMacros c).map fun (name, value, comment) =>
      s!"#define {Text.padEnd 25 name} {Text.padEnd 10 value} /**< {Text.padEnd 51 comment} */")) := by
  refine leads_ended fun l hl => ?_
  obtain ⟨⟨name, value, comment⟩, hm, rfl⟩ := List.mem_map.1 hl
  obtain ⟨hname, hvalue, hcomment⟩ := isInert_of_mem_coreMacros hm
  have hcode : IsInert s!"#define {Text.padEnd 25 name} {Text.padEnd 10 value}" :=
    isInert_append.2 ⟨isInert_append.2 ⟨isInert_append.2 ⟨by decide, hname.padEnd 25⟩,
      by decide⟩, hvalue.padEnd 10⟩
  have hnote : Leads code block " /**< " := by decide
  exact ((hcode.code.append hnote).put (hcomment.padEnd 51)).append (by decide)

theorem leads_core {c : Cpu} (h : IsOrdinary c.name) : Leads code code (ended (core c)) := by
  have hbrief : Leads code code (ended ["/**",
      s!" * @brief Configuration of the {Text.lower c.name} Processor and Core Peripherals",
      " */"]) :=
    .cons (r := block) (by decide) <|
      .cons (.fill (leads_ofList (by decide)) h.lower
        (isInert_ofList (by decide))) <| by decide
  have hgroup : IsInert "Cortex_Core_Configuration" := isInert_ofList (by decide)
  have hopen := Frame.leads_openGroup hgroup
    (isInert_ofList (by decide) : IsInert "Cortex Core Configuration")
    (isInert_ofList (by decide) : IsInert "Core configuration")
  have hclose := Frame.leads_closeGroup hgroup
  have hheader : IsInert c.coreHeader := by
    have hplus : IsOrdinary "PLUS" := by decide
    exact isInert_append.2 ⟨isInert_append.2 ⟨by decide, (h.replaceAll hplus).lower⟩, by decide⟩
  have hinclude : Leads code code ("#include <" ++ c.coreHeader) :=
    (isInert_append.2 ⟨by decide, hheader⟩).code
  exact .lines (.lines (.lines (.lines (.lines hbrief hopen) (leads_coreMacros c)) (by decide))
    hclose)
    (.cons (hinclude.append (leads_ofList (by decide))).newline (by decide))

/-! ## Peripherals -/

theorem isInert_title {p : Peripheral} (h : p.HasOrdinaryTexts) :
    IsInert (match p.derivedFrom with
      | some source => s!"{p.name} (derived from {source})"
      | none => p.name) := by
  cases hsource : p.derivedFrom with
  | none => exact h.name.isInert
  | some source =>
    have hordinary := (h.derivedFrom source hsource).isInert
    exact isInert_append.2 ⟨isInert_append.2 ⟨isInert_append.2 ⟨h.name.isInert, by decide⟩,
      hordinary⟩, by decide⟩

/-- The heading of a peripheral is read alike under all descriptions. -/
theorem alike_heading {p : Peripheral} (h : p.HasOrdinaryTexts) :
    Alike code code (ended (heading p.undescribed)) (ended (heading p)) := by
  have hrule : Leads code code (Frame.rule ++ "\n") := (leads_ofList (by decide)).newline
  have hopen : Leads code block "/* ================           " := leads_ofList (by decide)
  have hclose : Leads block code "       ================ */" := leads_ofList (by decide)
  have hline := ((hopen.put ((isInert_title h).padEnd 30)).append hclose).newline
  have hblank := leads_newline.1.alike
  exact .cons hblank <| .cons hrule.alike <| .cons hline.alike <| .cons hrule.alike <|
    .cons hblank <| alike_brief "" p.description

theorem leads_interruptList {p : Peripheral} (h : p.HasOrdinaryTexts) :
    ∀ l ∈ interruptList p, Leads code code l := by
  unfold interruptList
  split
  · exact nofun
  · have hnumbers : IsInert (", ".intercalate (p.interrupts.map Interrupt.numberName)) := by
      refine isInert_intercalate (by decide) fun n hn => ?_
      obtain ⟨i, hi, rfl⟩ := List.mem_map.1 hn
      exact isInert_append.2 ⟨(h.interrupts i hi).isInert, by decide⟩
    refine List.forall_mem_singleton.2 (IsInert.code ?_)
    exact isInert_append.2 ⟨isInert_append.2 ⟨isInert_append.2 ⟨isInert_append.2 ⟨by decide,
      h.name.isInert⟩, by decide⟩, hnumbers⟩, by decide⟩

end Header

end RegisterMap
