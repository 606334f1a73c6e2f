/-
# Emu8080.State.Basic -- the processor state

The program counter, the stack pointer, seven byte registers, the condition
codes and the interrupt enable bit.  A host may store any value into any of
them, the condition codes being five values of which each can be anything; what a
running machine relies on is `Domain`, and `validate` looks for the first register
or flag that leaves it.  A host that puts something else in the place of the five
codes as a whole is left out of account.

A state also holds the memory that operands are taken from.  A host may store
something else there too; the state is then cut off from the bus, and operands
in memory are out of reach.

A host may also store values under names of its own.  They are kept with the
state, and nothing looks at them; but one that takes the name of the check hides
it, and a state whose check is hidden is refused whatever it holds.
-/
import Emu8080.Fault
import Emu8080.Register

namespace Emu8080

set_option autoImplicit false

/-- What a state holds in the place of its memory: the memory of its machine, or a value that a
host stored there. -/
inductive Bus
  | memory
  | replaced (value : Datum)
deriving Inhabited

/-- The processor state; a fresh one is all zero and on the bus. -/
structure CpuState where
  pc : Datum := .int 0
  sp : Datum := .int 0
  a : Datum := .int 0
  b : Datum := .int 0
  c : Datum := .int 0
  d : Datum := .int 0
  e : Datum := .int 0
  h : Datum := .int 0
  l : Datum := .int 0
  cc : ConditionCodes := ConditionCodes.clear
  intEnable : Datum := .int 0
  bus : Bus := .memory
  /-- What a host stored under names of its own, the latest first. -/
  extras : List (Text × Datum) := []
deriving Inhabited

namespace CpuState

/-- The contents of a byte register. -/
def get (s : CpuState) : Reg → Datum
  | .a => s.a | .b => s.b | .c => s.c | .d => s.d | .e => s.e | .h => s.h | .l => s.l

/-- Replace the contents of a byte register. -/
def set (s : CpuState) (r : Reg) (v : Datum) : CpuState :=
  match r with
  | .a => { s with a := v }
  | .b => { s with b := v }
  | .c => { s with c := v }
  | .d => { s with d := v }
  | .e => { s with e := v }
  | .h => { s with h := v }
  | .l => { s with l := v }

@[simp] theorem get_set_self (s : CpuState) (r : Reg) (v : Datum) : (s.set r v).get r = v := by
  cases r <;> rfl

theorem get_set_of_ne (s : CpuState) {r q : Reg} (h : q ≠ r) (v : Datum) :
    (s.set r v).get q = s.get q := by
  cases r <;> cases q <;> simp_all [get, set]

@[simp] theorem pc_set (s : CpuState) (r : Reg) (v : Datum) : (s.set r v).pc = s.pc := by
  cases r <;> rfl

@[simp] theorem sp_set (s : CpuState) (r : Reg) (v : Datum) : (s.set r v).sp = s.sp := by
  cases r <;> rfl

@[simp] theorem cc_set (s : CpuState) (r : Reg) (v : Datum) : (s.set r v).cc = s.cc := by
  cases r <;> rfl

@[simp] theorem intEnable_set (s : CpuState) (r : Reg) (v : Datum) :
    (s.set r v).intEnable = s.intEnable := by
  cases r <;> rfl

@[simp] theorem bus_set (s : CpuState) (r : Reg) (v : Datum) : (s.set r v).bus = s.bus := by
  cases r <;> rfl

@[simp] theorem extras_set (s : CpuState) (r : Reg) (v : Datum) : (s.set r v).extras = s.extras := by
  cases r <;> rfl

/-- What a host stored under a name of its own. -/
def extra? (s : CpuState) (name : Text) : Option Datum := s.extras.lookup name

/-- Store a value under a name of the host's own. -/
def setExtra (s : CpuState) (name : Text) (value : Datum) : CpuState :=
  { s with extras := (name, value) :: s.extras }

/-- A word made of two registers, `none` if one of them holds no integer. -/
def word? (s : CpuState) (high low : Reg) : Option Int := do
  return pack (← (s.get high).int?) (← (s.get low).int?)

/-- Store the bytes of a word into two registers, high first. -/
def setWord (s : CpuState) (high low : Reg) (value : Int) : CpuState :=
  (s.set high (.int (unpack value).1)).set low (.int (unpack value).2)

/-- The greatest byte and the greatest word. -/
def maxByte : Nat := 0xFF

def maxWord : Nat := 0xFFFF

/-- The name of the check of the domain. -/
def checkName : String := "validate"

/-- Whether the check is there: no value hides it. -/
def isChecked (s : CpuState) : Bool := (s.extra? checkName).isNone

/-- Every register is an integer of its width, every bit is a bit, and the memory and the check
are there. -/
def Domain (s : CpuState) : Prop :=
  (∀ r, ((s.get r).within? maxByte).isSome) ∧ (s.pc.within? maxWord).isSome
    ∧ (s.sp.within? maxWord).isSome ∧ (∀ f, (s.cc.get f).isBit) ∧ s.intEnable.isBit
    ∧ s.bus = .memory ∧ s.isChecked

/-- The registers that `validate` looks at, with their names and greatest values, in its
order. -/
def bounded (s : CpuState) : List (String × Nat × Datum) :=
  Reg.all.map (fun r => (r.label, maxByte, s.get r))
    ++ [("PC", maxWord, s.pc), ("SP", maxWord, s.sp)]

/-- The first fault of the state: the byte registers in alphabetic order, the two wide
ones, the flags, and last the interrupt enable bit. -/
def fault? (s : CpuState) : Option Fault :=
  (s.bounded.find? fun entry => (entry.2.2.within? entry.2.1).isNone).map
      (fun entry => Fault.showing entry.2.2 (.registerRange entry.1 entry.2.2))
    <|> (Flag.all.find? fun f => !(s.cc.get f).isBit).map
      (fun f => .showing (s.cc.get f) (.flagRange f (s.cc.get f)))
    <|> (if s.intEnable.isBit then none
      else some (.showing s.intEnable (.interruptRange s.intEnable)))

/-- Refuse a state outside its domain. -/
def validate (s : CpuState) : Except Fault Unit :=
  if s.isChecked then
    match s.fault? with
    | some fault => .error fault
    | none => .ok ()
  else .error .wrongKind

end CpuState

end Emu8080
