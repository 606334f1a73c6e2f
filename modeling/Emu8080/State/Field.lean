/-
# Emu8080.State.Field -- the fields of the state by name

A host reads and writes the state by field names: the stored fields, the three
register pairs and the flag byte, which are put together from stored ones, and
the single flags as truth values.  `memory` names the memory as a whole, which
agrees with nothing but itself; writing it cuts the state off from the bus.
`validate` names the check of the domain, which belongs to one state and agrees
with that of no other; writing it hides the check.

Reading or writing a derived field looks only at the integers it needs: writing
a pair takes the bytes of the value, writing the flag byte its low bits, writing
a flag its truth.

A value that is stored under any other name is kept beside the fields, where
nothing but its name finds it.
-/
import Emu8080.State.Basic
import Emu8080.Action

namespace Emu8080

set_option autoImplicit false

/-- A named field of the state. -/
inductive Field
  | pc | sp
  | reg (r : Reg)
  | codes
  | intEnable
  | pair (high low : Reg)
  | flagByte
  | flag (f : Flag)
  | memory
  | check
deriving DecidableEq, Repr

/-- What reading a field gives: a value, all condition codes, the memory itself, or the check of
a state. -/
inductive Reading
  | value (d : Datum)
  | codes (cc : ConditionCodes)
  | memory
  | check

namespace Reading

/-- Whether a reading agrees with a plain value; only values do. -/
def is (d : Datum) : Reading → Bool
  | .value v => v.agrees d
  | .codes _ => false
  | .memory => false
  | .check => false

/-- Whether readings of one field in two states agree.  The memory is always itself. -/
def agrees : Reading → Reading → Bool
  | .value v, .value w => v.agrees w
  | .codes x, .codes y => x.agrees y
  | .memory, .memory => true
  | _, _ => false

end Reading

namespace Field

/-- Every field with its name. -/
def named : List (String × Field) :=
  [("pc", .pc), ("sp", .sp)]
    ++ Reg.all.map (fun r => (r.name, .reg r))
    ++ [("cc", .codes), ("int_enable", .intEnable), ("bc", .pair .b .c), ("de", .pair .d .e),
        ("hl", .pair .h .l), ("flags", .flagByte)]
    ++ Flag.all.map (fun f => ("flag_" ++ f.name, .flag f))
    ++ [("memory", .memory), (CpuState.checkName, .check)]

def ofName? (name : String) : Option Field := named.lookup name

/-- The field that a text names.  Names that a state answers to as any value does are those of no
field. -/
def ofText? (name : Text) : Option Field := name.string?.bind ofName?

/-- Read a field.  A pair needs two integers. -/
def read (s : CpuState) : Field → Except Fault Reading
  | .pc => .ok (.value s.pc)
  | .sp => .ok (.value s.sp)
  | .reg r => .ok (.value (s.get r))
  | .codes => .ok (.codes s.cc)
  | .intEnable => .ok (.value s.intEnable)
  | .pair high low =>
      match s.word? high low with
      | some n => .ok (.value (.int n))
      | none => .error .wrongKind
  | .flagByte => .ok (.value (.int s.cc.toByte))
  | .flag f => .ok (.value (.bool ((s.cc.get f).agrees (.int 1))))
  | .memory =>
      match s.bus with
      | .memory => .ok .memory
      | .replaced d => .ok (.value d)
  | .check =>
      match s.extra? CpuState.checkName with
      | none => .ok .check
      | some d => .ok (.value d)

/-- Condition codes from a list in flag order: zeros where the list ends early, and what is
left at its end counts for nothing. -/
def codesOfList (values : List Datum) : ConditionCodes :=
  Flags.ofFn fun f => values.getD (Flag.all.idxOf f) (.int 0)

/-- Condition codes from the elements of a value. -/
def codesOf (d : Datum) : Except Fault ConditionCodes := do
  return codesOfList (← d.elements)

/-- Write a field. -/
def write (s : CpuState) (value : Datum) : Field → Except Fault CpuState
  | .pc => .ok { s with pc := value }
  | .sp => .ok { s with sp := value }
  | .reg r => .ok (s.set r value)
  | .intEnable => .ok { s with intEnable := value }
  | .codes => do return { s with cc := ← codesOf value }
  | .pair high low => do return s.setWord high low (← value.whole)
  | .flagByte => do return { s with cc := ConditionCodes.ofByte (← value.whole) }
  | .flag f => .ok { s with cc := s.cc.set f (ConditionCodes.bit value.truthy) }
  | .memory => .ok { s with bus := .replaced value }
  | .check => .ok (s.setExtra CpuState.checkName value)

/-- Names of fields are told apart by case. -/
example : ofName? "PC" = none := by decide

end Field

/-- The register pair that a value names by its label. -/
def Pair.ofDatum (label : Datum) : Except Fault Pair :=
  match label with
  | .str s =>
      match s.string?.bind ofLabel? with
      | some pair => .ok pair
      | none => .error .noEntry
  | d => .error (if d.canBeKey then .noEntry else .wrongKind)

namespace CpuState

/-- Write what a name stands for: a field, or else a value beside the fields. -/
def write (s : CpuState) (name : Text) (value : Datum) : Except Fault CpuState :=
  match Field.ofText? name with
  | some field => field.write s value
  | none => .ok (s.setExtra name value)

/-- Read what a name stands for, if a value was ever stored under it. -/
def read (s : CpuState) (name : Text) : Except Fault Reading :=
  match Field.ofText? name with
  | some field => field.read s
  | none =>
      match s.extra? name with
      | some d => .ok (.value d)
      | none => .error .noAttribute

/-- Write under names in turn.  The state so far is kept when one of them is refused. -/
def assign : List (Text × Datum) → Action CpuState Unit
  | [] => pure ()
  | (name, value) :: rest => do
      MonadState.set (← Action.demand ((← MonadState.get).write name value))
      assign rest

/-- The value of a register pair; the stack pointer is taken as it is stored. -/
def getPair (s : CpuState) (pair : Pair) : Except Fault Datum :=
  match pair.registers? with
  | none => .ok s.sp
  | some (high, low) =>
      match s.word? high low with
      | some n => .ok (.int n)
      | none => .error .wrongKind

/-- Store a word into a register pair. -/
def setPair (s : CpuState) (pair : Pair) (value : Datum) : Except Fault CpuState := do
  let n ← value.whole
  match pair.registers? with
  | none => return { s with sp := .int (n % 65536) }
  | some (high, low) => return s.setWord high low n

/-- A report of every register and pair under its name. -/
def registerMap (s : CpuState) : Except Fault (List (String × Datum)) := do
  let pair (high low : Reg) : Except Fault Datum :=
    match s.word? high low with
    | some n => .ok (.int n)
    | none => .error .wrongKind
  return Reg.all.map (fun r => (r.label, s.get r))
    ++ [("SP", s.sp), ("PC", s.pc), ("BC", ← pair .b .c), ("DE", ← pair .d .e),
        ("HL", ← pair .h .l), ("FLAGS", .int s.cc.toByte)]

/-- A report of every flag as a truth value. -/
def flagMap (s : CpuState) : List (Flag × Bool) :=
  Flag.all.map fun f => (f, (s.cc.get f).agrees (.int 1))

end CpuState

end Emu8080
