import RegisterMap.Outcome

/-!
# Interrupt vectors

The vector table of a device: one entry per index, in the order of the indexes. Negative indexes
are exceptions of the core.
-/

namespace RegisterMap

/-- One vector. -/
structure Interrupt where
  index : Int
  name : String
  description : String := ""
  /-- The name of the handler, when it is not made from that of the vector. -/
  handler : Option String := none
  /-- The peripherals that raise the interrupt. -/
  peripherals : List String := []
  deriving DecidableEq, Repr, Inhabited

/-- An exception of a Cortex-M core. -/
structure CoreException where
  index : Int
  name : String
  handler : String
  description : String
  /-- The exception is missing in the small cores. -/
  fullOnly : Bool := false
  deriving DecidableEq, Repr

namespace CoreException

def all : List CoreException :=
  [{ index := -14, name := "NonMaskableInt", handler := "NMI_Handler",
     description := "Non maskable Interrupt, cannot be stopped or preempted" },
   { index := -13, name := "HardFault", handler := "HardFault_Handler",
     description := "Hard Fault, all classes of Fault" },
   { index := -12, name := "MemoryManagement", handler := "MemManage_Handler",
     description := "Memory Management, MPU mismatch, including Access Violation and No Match",
     fullOnly := true },
   { index := -11, name := "BusFault", handler := "BusFault_Handler",
     description :=
       "Bus Fault, Pre-Fetch-, Memory Access Fault, other address/memory related Fault",
     fullOnly := true },
   { index := -10, name := "UsageFault", handler := "UsageFault_Handler",
     description := "Usage Fault, i.e. Undef Instruction, Illegal State Transition",
     fullOnly := true },
   { index := -5, name := "SVCall", handler := "SVC_Handler",
     description := "System Service Call via SVC instruction" },
   { index := -4, name := "DebugMonitor", handler := "DebugMon_Handler",
     description := "Debug Monitor", fullOnly := true },
   { index := -2, name := "PendSV", handler := "PendSV_Handler",
     description := "Pendable request for system service" },
   { index := -1, name := "SysTick", handler := "SysTick_Handler",
     description := "System Tick Timer" }]

/-- The exceptions of a core, the small ones having fewer. -/
def ofCore (small : Bool) : List CoreException := all.filter fun e => !(small && e.fullOnly)

def toInterrupt (e : CoreException) : Interrupt :=
  { index := e.index, name := e.name, description := e.description, handler := some e.handler }

end CoreException

namespace Interrupt

/-- The name of the function that handles the interrupt. -/
def handlerName (i : Interrupt) : String :=
  match i.handler with
  | some h => h
  | none =>
    if i.index < 0 then
      match CoreException.all.find? fun e => e.index == i.index && e.name == i.name with
      | some e => e.handler
      | none => i.name ++ "_Handler"
    else i.name ++ "_IRQHandler"

theorem handlerName_toInterrupt (e : CoreException) : e.toInterrupt.handlerName = e.handler := rfl

/-- The name of the vector's number. -/
def numberName (i : Interrupt) : String := i.name ++ "_IRQn"

/-- The entry with the owners and, if it has none, the description of another. -/
def absorb (old new : Interrupt) : Interrupt where
  index := old.index
  name := old.name
  description := if old.description.isEmpty then new.description else old.description
  handler := old.handler
  peripherals :=
    new.peripherals.foldl (fun ps p => if ps.contains p then ps else ps ++ [p]) old.peripherals

/-- The entry with the peripheral among its owners. -/
def ownedBy (p : String) (i : Interrupt) : Interrupt :=
  if i.peripherals.contains p then i else { i with peripherals := i.peripherals ++ [p] }

end Interrupt

namespace Vectors

/-- Puts an entry under its key into a list in the order of the keys. -/
def put (k : Int) (i : Interrupt) : List (Int × Interrupt) → List (Int × Interrupt)
  | [] => [(k, i)]
  | (j, old) :: rest =>
    if k < j then (k, i) :: (j, old) :: rest
    else if k = j then (k, i) :: rest
    else (j, old) :: put k i rest

theorem mem_put {k : Int} {i : Interrupt} {es : List (Int × Interrupt)} {e : Int × Interrupt}
    (h : e ∈ put k i es) : e = (k, i) ∨ e ∈ es := by
  fun_induction put k i es <;> grind

theorem put_sorted (k : Int) (i : Interrupt) {es : List (Int × Interrupt)}
    (h : es.Pairwise fun a b => a.1 < b.1) : (put k i es).Pairwise fun a b => a.1 < b.1 := by
  fun_induction put k i es with
  | case1 => simp
  | case2 j old rest hk =>
    refine List.pairwise_cons.2 ⟨fun x hx => ?_, h⟩
    rcases List.mem_cons.1 hx with rfl | hx
    · exact hk
    · exact Int.lt_trans hk ((List.pairwise_cons.1 h).1 x hx)
  | case3 old rest => exact List.pairwise_cons.2 (List.pairwise_cons.1 h)
  | case4 j old rest hlt hne ih =>
    have h := List.pairwise_cons.1 h
    refine List.pairwise_cons.2 ⟨fun x hx => ?_, ih h.2⟩
    rcases mem_put hx with rfl | hx
    · exact Int.lt_iff_le_and_ne.2 ⟨Int.not_lt.1 hlt, fun e => hne e.symm⟩
    · exact h.1 x hx

theorem lookup_put_self (k : Int) (i : Interrupt) (es : List (Int × Interrupt)) :
    (put k i es).lookup k = some i := by
  fun_induction put k i es with
  | case1 => simp
  | case2 => simp
  | case3 => simp
  | case4 j old rest _ hne ih =>
    have hb : (k == j) = false := by simpa using hne
    simp [List.lookup_cons, hb, ih]

theorem lookup_put_of_ne {j k : Int} (h : j ≠ k) (i : Interrupt) (es : List (Int × Interrupt)) :
    (put k i es).lookup j = es.lookup j := by
  have hb : (j == k) = false := by simpa using h
  fun_induction put k i es with
  | case1 => simp [List.lookup_cons, hb]
  | case2 => simp [List.lookup_cons, hb]
  | case3 => simp [List.lookup_cons, hb]
  | case4 j' old rest _ _ ih => simp [List.lookup_cons, ih]

end Vectors

/-- The vectors of a device by key, in the order of the keys. -/
structure VectorTable where
  entries : List (Int × Interrupt)
  sorted : entries.Pairwise (fun a b => a.1 < b.1)
  deriving DecidableEq, Repr

namespace VectorTable

/-- The table without entries. -/
def empty : VectorTable := ⟨[], .nil⟩

instance : Inhabited VectorTable := ⟨empty⟩

/-- The table with an entry under a key, in place of the one that was there. -/
def insert (t : VectorTable) (k : Int) (i : Interrupt) : VectorTable :=
  ⟨Vectors.put k i t.entries, Vectors.put_sorted k i t.sorted⟩

/-- The entry under a key. -/
def get? (t : VectorTable) (k : Int) : Option Interrupt := t.entries.lookup k

@[simp] theorem get?_insert_self (t : VectorTable) (k : Int) (i : Interrupt) :
    (t.insert k i).get? k = some i := Vectors.lookup_put_self k i t.entries

theorem get?_insert_of_ne (t : VectorTable) {j k : Int} (h : j ≠ k) (i : Interrupt) :
    (t.insert k i).get? j = t.get? j := Vectors.lookup_put_of_ne h i t.entries

/-- The entries in order. -/
def toList (t : VectorTable) : List Interrupt := t.entries.map Prod.snd

/-- Adds an entry under its index. One that is there already takes over its owners, and must have
the same name. -/
def add (t : VectorTable) (i : Interrupt) : Except Failure VectorTable :=
  match t.get? i.index with
  | none => .ok (t.insert i.index i)
  | some old =>
    if old.name = i.name then .ok (t.insert i.index (old.absorb i))
    else fail (.interruptRenamed i.index old.name i.name)

/-- Adds entries up to the first that is refused. -/
def addAll (t : VectorTable) (is : List Interrupt) : Outcome VectorTable :=
  is.foldl (fun o i => o.andThen fun t => .ofExcept t (t.add i)) (.pure t)

/-- Some entry is an exception of the core. -/
def hasExceptions (t : VectorTable) : Bool := t.entries.any fun (k, _) => k < 0

/-- Adds the exceptions of a Cortex-M core. -/
def addCoreExceptions (t : VectorTable) (small : Bool) : Outcome VectorTable :=
  t.addAll ((CoreException.ofCore small).map CoreException.toInterrupt)

end VectorTable

end RegisterMap
