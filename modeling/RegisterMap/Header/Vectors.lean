import RegisterMap.CText
import RegisterMap.Header.Part
import RegisterMap.Interrupt

/-!
# Vectors in a header

The enumeration of the interrupt numbers and the prototypes of their handlers.
-/

namespace RegisterMap.Vectors

/-- The line of an interrupt number. Exceptions count from 16 below the first interrupt. -/
def numberLine (i : Interrupt) : String :=
  s!"  {Text.padEnd 29 i.numberName} = {Text.padStart 3 (toString i.index)},   " ++
    s!"/**< {Text.padStart 3 (toString (i.index + 16))} " ++
    s!"{Text.padEnd 80 (CText.comment i.description)} */"

/-- The line before the numbers that are no exceptions. -/
def separator : String :=
  "/* ----------------------   " ++ Text.padEnd 36 "Device specific interrupts" ++
    " ---------------------- */"

/-- The lines of the numbers, with a separator before the first that is no exception. -/
def numberLines : List Interrupt → List String
  | [] => []
  | i :: is =>
    if 0 ≤ i.index then separator :: numberLine i :: is.map numberLine
    else numberLine i :: numberLines is

/-- The enumeration of the interrupt numbers. -/
def enumeration (t : VectorTable) : List String :=
  ["/* -------------------------  Interrupt Number Definitions  ------------------------ */",
   ""] ++
  Frame.openGroup "Interrupt_vector_numbers" "Interrupt vector numbers"
    "Vector numbers required for NVIC functions" ++
  ["",
   "/* Interrupt vector numbers */",
   "typedef enum \x7b",
   "/* ------------------------  Processor Exceptions Numbers  ------------------------- */"] ++
  numberLines t.toList ++
  ["\x7d IRQn_Type;", ""] ++
  Frame.closeGroup "Interrupt_vector_numbers"

/-- The prototype of a handler. -/
def prototypeLine (i : Interrupt) : String :=
  let call := i.handlerName ++ "(void);"
  s!"extern void {Text.padEnd 38 call}   /**< " ++
    s!"{Text.padEnd 80 (CText.comment i.description)} */"

/-- The prototypes of the handlers. -/
def prototypes (t : VectorTable) : List String :=
  "/* -------------------------  Exception Handlers  ------------------------ */" ::
  Frame.openGroup "Interrupt_handler_prototypes" "Interrupt handler prototypes"
    "Prototypes for interrupt handlers" ++
  [""] ++ t.toList.map prototypeLine ++ [""] ++
  Frame.closeGroup "Interrupt_handler_prototypes"

end RegisterMap.Vectors
