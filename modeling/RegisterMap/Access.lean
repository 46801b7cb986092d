import RegisterMap.Text.Blank

/-!
# Access types

What a register or a field lets a program do: read it, write it, and do so more than once.
-/

namespace RegisterMap

/-- The capability to read and to write. -/
inductive Access
  | readOnly
  | writeOnly
  | readWrite
  | writeOnce
  | readWriteOnce
  deriving DecidableEq, Repr, Inhabited

namespace Access

def all : List Access := [readOnly, writeOnly, readWrite, writeOnce, readWriteOnce]

theorem mem_all (a : Access) : a ∈ all := by cases a <;> simp [all]

/-- Bit 1 is set when reading is allowed, bit 2 when writing is, bit 4 when it may be repeated. -/
def mask : Access → Nat
  | readOnly => 0x12
  | writeOnly => 0x14
  | readWrite => 0x16
  | writeOnce => 0x04
  | readWriteOnce => 0x06

/-- The access type with exactly these capabilities. -/
def ofMask? (m : Nat) : Option Access := all.find? fun a => a.mask == m

theorem ofMask?_mask (a : Access) : ofMask? a.mask = some a := by cases a <;> decide

/-- What both allow, if there is an access type for it. -/
def meet? (a b : Access) : Option Access := ofMask? (a.mask &&& b.mask)

/-- What either allows, if there is an access type for it. -/
def join? (a b : Access) : Option Access := ofMask? (a.mask ||| b.mask)

def isReadable (a : Access) : Bool := a.mask &&& 0x02 != 0

def isWritable (a : Access) : Bool := a.mask &&& 0x04 != 0

/-- The registers may share an address block: both can be read repeatedly, or neither can. -/
def sharesBlock (a b : Access) : Bool := a == b || meet? a readOnly == meet? b readOnly

/-- The name in descriptions. -/
def name : Access → String
  | readOnly => "read-only"
  | writeOnly => "write-only"
  | readWrite => "read-write"
  | writeOnce => "writeOnce"
  | readWriteOnce => "read-writeOnce"

/-- The name in messages about combinations. -/
def label : Access → String
  | readOnly => "ReadOnly"
  | writeOnly => "WriteOnly"
  | readWrite => "ReadWrite"
  | writeOnce => "WriteOnce"
  | readWriteOnce => "ReadWriteOnce"

/-- The access type of a name. -/
def ofName? (s : String) : Option Access := all.find? fun a => a.name == s

theorem ofName?_name (a : Access) : ofName? a.name = some a := by cases a <;> decide

/-- The access type of a name with blanks around it. -/
def ofText? (s : String) : Option Access := ofName? (Text.trim s)

/-- The qualifier of a struct member with this access. -/
def qualifier : Access → String
  | readOnly => "__I"
  | writeOnly => "__O"
  | _ => "__IO"

end Access

end RegisterMap
