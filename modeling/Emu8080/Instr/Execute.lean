/-
# Emu8080.Instr.Execute -- what instructions do

Execution looks at the operand bytes and the flag mask of the operation and at
nothing else of it, and never at the program counter.  Arithmetic takes the mask
from the operation, so an operation made by hand may lack one; the result is
stored before that is found out.  Rotations and the carry instructions set the
carry themselves, whatever the mask and the policy say.
-/
import Emu8080.Machine
import Emu8080.Instr.Operation
import Emu8080.Alu.Adder
import Emu8080.Alu.Condition
import Emu8080.Alu.Rotate

namespace Emu8080

set_option autoImplicit false

namespace Instr

open Machine
open Emu8080.Action (demand whole)

/-- The word that two bytes make, modulo 65536.  Bytes out of range overlap bit by bit. -/
def wordOf (low high : Int) : Int :=
  (((high * 256) % 65536).toNat ||| (low % 65536).toNat : Nat)

/-- The operand word, low byte first.  The high byte is looked at first. -/
def operandWord {σ : Type} (bytes : Datum) : Action σ Int := do
  let high ← whole (← demand (Operation.byteAt bytes 1))
  let low ← whole (← demand (Operation.byteAt bytes 0))
  return wordOf low high

/-- Set the flags that an operation may change from a result. -/
def setFlags (affected : Option FlagMask) (policy : FlagPolicy) (sum : Alu.Sum) : Exec Unit := do
  match affected with
  | none => throw .noAttribute
  | some mask =>
      let cc := (← get).state.cc
      setCodes (Alu.applyFlags cc mask sum.value sum.carry.toInt sum.auxCarry.toInt policy)

/-- Add a byte to an operand and set the flags. -/
def adjust (target : Operand8) (addend : Int) (affected : Option FlagMask) (policy : FlagPolicy) :
    Exec Unit := do
  let value ← whole (← load target)
  let sum := Alu.add .byte value addend 0
  save target (.int sum.value)
  -- the mask leaves the carry alone, so the carry of the addition is not passed on
  setFlags affected policy { sum with carry := false }

/-- Add an operand and a carry to the accumulator. -/
def accumulate (source : Operand8) (carryIn : Exec Int) (affected : Option FlagMask)
    (policy : FlagPolicy) : Exec Unit := do
  let value ← load source
  let a := (← get).state.a
  let a ← whole a
  let value ← whole value
  let sum := Alu.add .byte a value (← carryIn)
  modifyState fun s => { s with a := .int sum.value }
  setFlags affected policy sum

/-- The carry flag as an integer. -/
def carryFlag : Exec Int := do whole (← get).state.cc.cy

/-- Set the carry flag alone. -/
def setCarry (carry : Int) : Exec Unit := do
  let cc := (← get).state.cc
  setCodes { cc with cy := .int carry }

/-- Rotate the accumulator. -/
def rotateA (how : Rotation) : Exec Unit := do
  let a ← whole (← get).state.a
  let (result, carry) ←
    match how with
    | .left => pure (Alu.rlc a)
    | .right => pure (Alu.rrc a)
    | .leftThroughCarry => do pure (Alu.ral a (← carryFlag))
    | .rightThroughCarry => do pure (Alu.rar a (← carryFlag))
  modifyState fun s => { s with a := .int result }
  setCarry carry

/-- The address after another one. -/
def nextAddress (address : Int) : Int := (address + 1) % 65536

/-- Carry out an instruction with its operand bytes and flag mask. -/
def execute (i : Instr) (bytes : Datum) (affected : Option FlagMask) (policy : FlagPolicy) :
    Exec Unit :=
  match i with
  | .nop _ => pure ()
  | .mov target source => do save target (← load source)
  | .mvi target => do save target (← demand (Operation.byteAt bytes 0))
  | .lxi target => do setPair target (← operandWord bytes)
  | .stax address => do
      let address ← getPair address
      reach
      write address (← get).state.a
  | .ldax address => do
      let address ← getPair address
      reach
      let v ← read address
      modifyState fun s => { s with a := .int v.toNat }
  | .sta => do
      reach
      let address ← operandWord bytes
      write (.int address) (← get).state.a
  | .lda => do
      reach
      let v ← read (.int (← operandWord bytes))
      modifyState fun s => { s with a := .int v.toNat }
  | .shld => do
      let address ← operandWord bytes
      let (high, low) := unpack (← hl)
      reach
      write (.int address) (.int low)
      write (.int (nextAddress address)) (.int high)
  | .lhld => do
      let address ← operandWord bytes
      reach
      let low ← read (.int address)
      modifyState fun s => { s with l := .int low.toNat }
      let high ← read (.int (nextAddress address))
      modifyState fun s => { s with h := .int high.toNat }
  | .inx target => do
      let (high, low) := unpack (← whole (← getPair target))
      let lowSum := Alu.add .byte low 1 0
      let highSum := Alu.add .byte high 0 lowSum.carry.toInt
      setPair target (pack highSum.value lowSum.value)
  | .dcx target => do
      let value ← whole (← getPair target)
      setPair target (Alu.add .word value 0xFFFF 0).value
  | .dad source => do
      let addend ← getPair source
      let base ← hl
      let sum := Alu.add .word base (← whole addend) 0
      modifyState (·.setWord .h .l sum.value)
      setFlags affected policy { sum with auxCarry := false }
  | .inr target => adjust target 1 affected policy
  | .dcr target => adjust target 0xFF affected policy
  | .add source => accumulate source (pure 0) affected policy
  | .adc source => accumulate source carryFlag affected policy
  | .rotate how => rotateA how
  | .cma => do
      let a ← whole (← get).state.a
      modifyState fun s => { s with a := .int ((-a - 1) % 256) }
  | .stc => setCarry 1
  | .cmc => do
      let carry ← carryFlag
      setCarry (if carry % 2 = 0 then carry + 1 else carry - 1)

end Instr

/-- Carry out an operation: its opcode selects the instruction, and one without an
implementation traps at the current program counter. -/
def Operation.execute (op : Operation) (policy : FlagPolicy) : Exec Unit := do
  let code ← Action.demand op.opcode
  if 0 ≤ code ∧ code < 256 then
    let opcode := UInt8.ofInt code
    match Instr.ofOpcode? opcode with
    | some i => i.execute op.operandBytes op.affected policy
    | none => throw (Fault.trap opcode (← get).state.pc op.mnemonic)
  else throw .noEntry

/-- One instruction cycle: forget the old accesses, fetch at the program counter, decode,
advance, execute, and check the state. -/
def Machine.step (policy : FlagPolicy) : Exec Operation := do
  Machine.reach
  let _ ← Machine.onMemory Memory.takeLog
  let pc := (← get).state.pc
  let opcode ← Machine.read pc
  let op ← Machine.onMemory (Operation.decode opcode pc)
  let base ← Action.whole pc
  let length ← Action.whole op.length
  Machine.modifyState fun s => { s with pc := .int ((base + length) % 65536) }
  op.execute policy
  Action.demand (← get).state.validate
  return op

end Emu8080
