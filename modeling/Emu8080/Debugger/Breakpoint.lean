/-
# Emu8080.Debugger.Breakpoint -- conditions that stop a run

A breakpoint names a condition on the program counter, on the bus accesses of an
instruction, or on a field of the state.  Two breakpoints are the same when all
their parts are, and a list of breakpoints holds each only once.

The parts are values of the host.  A breakpoint is enabled if that part counts as
true, and the name of a field has to be a text when it is looked at.
-/
import Emu8080.Cpu

namespace Emu8080

set_option autoImplicit false

/-- What a breakpoint watches. -/
inductive BreakpointKind
  | pcMatch | memoryRead | memoryWrite | registerValue | registerChange
deriving DecidableEq, Repr

namespace BreakpointKind

def all : List BreakpointKind :=
  [.pcMatch, .memoryRead, .memoryWrite, .registerValue, .registerChange]

def name : BreakpointKind → String
  | .pcMatch => "PC_MATCH"
  | .memoryRead => "MEMORY_READ"
  | .memoryWrite => "MEMORY_WRITE"
  | .registerValue => "REGISTER_VALUE"
  | .registerChange => "REGISTER_CHANGE"

def ofName? (s : String) : Option BreakpointKind := all.find? (·.name == s)

/-- The kind of a name; nothing else is one. -/
def ofDatum (d : Datum) : Except Fault BreakpointKind := Choice.breakpointKind.find ofName? d

theorem ofName?_name (k : BreakpointKind) : ofName? k.name = some k := by cases k <;> decide

end BreakpointKind

/-- A condition with the parts it uses: `value` for the program counter and register
values, `address` for accesses, `register` for fields. -/
structure Breakpoint where
  kind : BreakpointKind
  value : Datum := .null
  address : Datum := .null
  register : Datum := .null
  enabled : Datum := .bool true

namespace Breakpoint

/-- Whether two breakpoints are the same part by part. -/
def agrees (x y : Breakpoint) : Bool :=
  x.kind == y.kind && x.value.same y.value && x.address.same y.address
    && x.register.same y.register && x.enabled.same y.enabled

def isEnabled (b : Breakpoint) : Bool := b.enabled.truthy

/-- Add a breakpoint at the end unless the list holds it. -/
def insert (b : Breakpoint) (list : List Breakpoint) : List Breakpoint :=
  if list.any (·.agrees b) then list else list ++ [b]

/-- Remove a breakpoint from the list. -/
def erase (b : Breakpoint) (list : List Breakpoint) : List Breakpoint :=
  list.eraseP (·.agrees b)

/-- Whether an enabled breakpoint stands at a program counter. -/
def standsAt (pc : Datum) (b : Breakpoint) : Bool :=
  b.isEnabled && b.kind == .pcMatch && b.value.agrees pc

/-- Whether an access touches the watched address. -/
def touches (b : Breakpoint) (access : Access) : Bool :=
  (Datum.int access.address.toNat).agrees b.address

/-- The field a breakpoint watches; no name and unknown names watch nothing. -/
def watched (b : Breakpoint) : Except Fault (Option Field) :=
  match b.register with
  | .str name => .ok (Field.ofText? name)
  | d => if d.truthy then .error .wrongKind else .ok none

/-- Whether an instruction meets the condition, given the state before it.  Conditions on
the program counter are looked at elsewhere. -/
def meets (b : Breakpoint) (before : CpuState) (s : Snapshot) : Except Fault Bool :=
  if !b.isEnabled then .ok false
  else
    match b.kind with
    | .pcMatch => .ok false
    | .memoryRead => .ok (s.activity.any fun access => access.isRead && b.touches access)
    | .memoryWrite => .ok (s.activity.any fun access => !access.isRead && b.touches access)
    | .registerValue => do
        match ← b.watched with
        | none => return false
        | some field => return (← field.read s.state).is b.value
    | .registerChange => do
        match ← b.watched with
        | none => return false
        | some field =>
            let now ← field.read s.state
            return !now.agrees (← field.read before)

/-- Whether an instruction meets any of the conditions, looked at in order. -/
def anyMeets (before : CpuState) (s : Snapshot) : List Breakpoint → Except Fault Bool
  | [] => .ok false
  | b :: rest => do
      if ← b.meets before s then return true
      anyMeets before s rest

theorem meets_disabled {b : Breakpoint} (h : b.isEnabled = false) (before : CpuState)
    (s : Snapshot) : b.meets before s = .ok false := by
  simp [meets, h]

end Breakpoint

end Emu8080
