/-
# Emu8080.Machine -- the state and its memory

What instructions act on: the processor state and the address space.  Byte
operands are read and written here, the one that HL points to through the bus.
-/
import Emu8080.Memory
import Emu8080.State.Field

namespace Emu8080

set_option autoImplicit false

/-- The processor state with its memory. -/
structure Machine where
  state : CpuState := {}
  memory : Memory := .zero
deriving Inhabited

/-- A change of state and memory that may be refused. -/
abbrev Exec (α : Type) := Action Machine α

namespace Machine

/-- Run a memory action. -/
def onMemory {α : Type} (x : Action Memory α) : Exec α :=
  Action.within (fun ⟨state, memory⟩ => (memory, fun memory => ⟨state, memory⟩)) x

/-- Run a state action. -/
def onState {α : Type} (x : Action CpuState α) : Exec α :=
  Action.within (fun ⟨state, memory⟩ => (state, fun state => ⟨state, memory⟩)) x

/-- Read a byte over the bus. -/
def read (address : Datum) : Exec UInt8 := onMemory (Memory.read address)

/-- Write a byte over the bus. -/
def write (address data : Datum) : Exec Unit := onMemory (Memory.write address data)

/-- Replace the state. -/
def modifyState (f : CpuState → CpuState) : Exec Unit :=
  modify fun m => { m with state := f m.state }

/-- Look for the memory that operands are taken from. -/
def reach : Exec Unit := do
  match (← get).state.bus with
  | .memory => pure ()
  | .replaced _ => throw .noAttribute

/-- The word in two registers, which have to hold integers. -/
def word (high low : Reg) : Exec Int := do
  let s := (← get).state
  let upper ← Action.whole (s.get high)
  let lower ← Action.whole (s.get low)
  return pack upper lower

/-- The word that HL holds. -/
def hl : Exec Int := word .h .l

/-- The word in a pair; the stack pointer is taken as it is stored. -/
def getPair (p : Pair) : Exec Datum :=
  match p.registers? with
  | some (high, low) => do return .int (← word high low)
  | none => do return (← get).state.sp

/-- Store a word into a pair. -/
def setPair (p : Pair) (value : Int) : Exec Unit :=
  match p.registers? with
  | some (high, low) => modifyState (·.setWord high low value)
  | none => modifyState fun s => { s with sp := .int (value % 65536) }

/-- The value of a byte operand. -/
def load (o : Operand8) : Exec Datum :=
  match o with
  | .reg r => do return (← get).state.get r
  | .mem => do
      reach
      let address ← hl
      return .int (← read (.int address)).toNat

/-- Store the low byte of a value into a byte operand.  For the memory operand the address
is formed before the value is looked at. -/
def save (o : Operand8) (value : Datum) : Exec Unit :=
  match o with
  | .reg r => do
      let n ← Action.whole value
      modifyState (·.set r (.int (n % 256)))
  | .mem => do
      reach
      let address ← hl
      let n ← Action.whole value
      write (.int address) (.int (n % 256))

/-- Replace the condition codes. -/
def setCodes (cc : ConditionCodes) : Exec Unit := modifyState fun s => { s with cc }

theorem load_reg (r : Reg) (m : Machine) : load (.reg r) m = .ok (m.state.get r) m := rfl

end Machine

end Emu8080
