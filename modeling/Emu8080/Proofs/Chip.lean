/-
# Emu8080.Proofs.Chip -- the processor as its manual describes it

A `Chip` holds bytes, words and bits: seven byte registers, the stack pointer
and the program counter, five flags, the interrupt enable bit, and a byte at
every address.  `Chip.effect` says in arithmetic what each instruction does, and
`Chip.next` what one step does, given the instruction that stands at the program
counter.  Nothing here is taken from the way a `Machine` computes: sums are sums
of naturals with their remainder, a carry is a comparison with the width, parity
counts bits, and a rotation moves a number within its width.

The bus sees a step as reads and writes; `Chip.cycles` lists them in order.
-/
import Emu8080.Instr.Basic
import Emu8080.Proofs.Parity
import Emu8080.Proofs.Word
import Mathlib.Logic.Function.Basic

namespace Emu8080

set_option autoImplicit false

/-- Move a number of `width` bits up by one; the highest bit comes in below. -/
def rotateUp (width n : Nat) : Nat := 2 * n % Nat.pow 2 width + n / Nat.pow 2 (width - 1)

/-- Move a number of `width` bits down by one; the lowest bit comes in above. -/
def rotateDown (width n : Nat) : Nat := n / 2 + Nat.pow 2 (width - 1) * (n % 2)

/-- What the bus sees of one access. -/
inductive BusCycle
  | read (address : UInt16) (data : UInt8)
  | write (address : UInt16) (data previous : UInt8)
deriving DecidableEq, Repr

/-- Registers, flags and memory as plain numbers. -/
structure Chip where
  reg : Reg → UInt8
  sp : UInt16
  pc : UInt16
  flag : Flag → Bool
  intEnable : Bool
  byte : UInt16 → UInt8

namespace Chip

open Function (update)

/-! ## Registers, pairs and operands -/

def setReg (c : Chip) (r : Reg) (v : UInt8) : Chip := { c with reg := update c.reg r v }

def setFlag (c : Chip) (f : Flag) (b : Bool) : Chip := { c with flag := update c.flag f b }

def store (c : Chip) (a : UInt16) (v : UInt8) : Chip := { c with byte := update c.byte a v }

def pair (c : Chip) : Pair → UInt16
  | .bc => ofBytes (c.reg .b) (c.reg .c)
  | .de => ofBytes (c.reg .d) (c.reg .e)
  | .hl => ofBytes (c.reg .h) (c.reg .l)
  | .sp => c.sp

def setPair (c : Chip) (p : Pair) (w : UInt16) : Chip :=
  match p with
  | .bc => (c.setReg .b (highByte w)).setReg .c (lowByte w)
  | .de => (c.setReg .d (highByte w)).setReg .e (lowByte w)
  | .hl => (c.setReg .h (highByte w)).setReg .l (lowByte w)
  | .sp => { c with sp := w }

/-- The byte that an operand stands for. -/
def operand (c : Chip) : Operand8 → UInt8
  | .reg r => c.reg r
  | .mem => c.byte (c.pair .hl)

def put (c : Chip) (o : Operand8) (v : UInt8) : Chip :=
  match o with
  | .reg r => c.setReg r v
  | .mem => c.store (c.pair .hl) v

theorem reg_setReg_self (c : Chip) (r : Reg) (v : UInt8) : (c.setReg r v).reg r = v := by
  simp only [setReg, Function.update_self]

theorem reg_setReg_of_ne (c : Chip) {r q : Reg} (h : q ≠ r) (v : UInt8) :
    (c.setReg r v).reg q = c.reg q := by
  simp only [setReg, Function.update_of_ne h]

theorem flag_setFlag_self (c : Chip) (f : Flag) (b : Bool) : (c.setFlag f b).flag f = b := by
  simp only [setFlag, Function.update_self]

theorem flag_setFlag_of_ne (c : Chip) {f g : Flag} (h : g ≠ f) (b : Bool) :
    (c.setFlag f b).flag g = c.flag g := by
  simp only [setFlag, Function.update_of_ne h]

theorem byte_store_self (c : Chip) (a : UInt16) (v : UInt8) : (c.store a v).byte a = v := by
  simp only [store, Function.update_self]

theorem byte_store_of_ne (c : Chip) {a b : UInt16} (h : b ≠ a) (v : UInt8) :
    (c.store a v).byte b = c.byte b := by
  simp only [store, Function.update_of_ne h]

/-! ## Flags -/

/-- Give some flags a value; the others are kept or cleared as the policy says. -/
def settle (c : Chip) (policy : FlagPolicy) (given : Flag → Option Bool) : Chip :=
  { c with
    flag := fun f =>
      match given f, policy with
      | some b, _ => b
      | none, .preserve => c.flag f
      | none, .clear => false }

/-- The flags that a result of one byte sets, and the two carries if they are affected. -/
def byteFlags (v : UInt8) (carry : Option Bool) (auxCarry : Bool) : Flag → Option Bool
  | .z => some (v == 0)
  | .s => some (decide (128 ≤ v.toNat))
  | .p => some (Alu.ones 8 v.toNat % 2 == 0)
  | .cy => carry
  | .ac => some auxCarry

def carryOnly (carry : Bool) : Flag → Option Bool
  | .cy => some carry
  | _ => none

/-! ## Instructions -/

/-- Add a byte and a carry to the accumulator. -/
def accumulate (c : Chip) (policy : FlagPolicy) (v : UInt8) (carry : Bool) : Chip :=
  let a := c.reg .a
  let sum := a.toNat + v.toNat + carry.toNat
  let result := UInt8.ofNat sum
  (c.setReg .a result).settle policy
    (byteFlags result (some (decide (256 ≤ sum)))
      (decide (16 ≤ a.toNat % 16 + v.toNat % 16 + carry.toNat)))

/-- Rotate the eight bits of the accumulator, or the nine of the carry and the accumulator. -/
def rotate (c : Chip) (how : Rotation) : Chip :=
  let a := (c.reg .a).toNat
  let wide := 256 * (c.flag .cy).toNat + a
  match how with
  | .left => (c.setReg .a (UInt8.ofNat (rotateUp 8 a))).setFlag .cy (decide (128 ≤ a))
  | .right => (c.setReg .a (UInt8.ofNat (rotateDown 8 a))).setFlag .cy (a % 2 == 1)
  | .leftThroughCarry =>
      (c.setReg .a (UInt8.ofNat (rotateUp 9 wide))).setFlag .cy (decide (256 ≤ rotateUp 9 wide))
  | .rightThroughCarry =>
      (c.setReg .a (UInt8.ofNat (rotateDown 9 wide))).setFlag .cy (decide (256 ≤ rotateDown 9 wide))

/-- What an instruction does, `low` and `high` being the bytes after its opcode. -/
def effect (policy : FlagPolicy) (i : Instr) (low high : UInt8) (c : Chip) : Chip :=
  match i with
  | .nop _ => c
  | .mov target source => c.put target (c.operand source)
  | .mvi target => c.put target low
  | .lxi target => c.setPair target (ofBytes high low)
  | .stax address => c.store (c.pair address) (c.reg .a)
  | .ldax address => c.setReg .a (c.byte (c.pair address))
  | .sta => c.store (ofBytes high low) (c.reg .a)
  | .lda => c.setReg .a (c.byte (ofBytes high low))
  | .shld => (c.store (ofBytes high low) (c.reg .l)).store (ofBytes high low + 1) (c.reg .h)
  | .lhld => (c.setReg .l (c.byte (ofBytes high low))).setReg .h (c.byte (ofBytes high low + 1))
  | .inx target => c.setPair target (c.pair target + 1)
  | .dcx target => c.setPair target (c.pair target - 1)
  | .dad source =>
      let sum := (c.pair .hl).toNat + (c.pair source).toNat
      (c.setPair .hl (UInt16.ofNat sum)).settle policy (carryOnly (decide (65536 ≤ sum)))
  | .inr target =>
      let v := c.operand target
      (c.put target (v + 1)).settle policy (byteFlags (v + 1) none (v.toNat % 16 == 15))
  | .dcr target =>
      let v := c.operand target
      (c.put target (v - 1)).settle policy (byteFlags (v - 1) none (v.toNat % 16 != 0))
  | .add source => c.accumulate policy (c.operand source) false
  | .adc source => c.accumulate policy (c.operand source) (c.flag .cy)
  | .rotate how => c.rotate how
  | .cma => c.setReg .a (255 - c.reg .a)
  | .stc => c.setFlag .cy true
  | .cmc => c.setFlag .cy (!c.flag .cy)

/-- One step with the instruction that stands at the program counter. -/
def next (policy : FlagPolicy) (i : Instr) (c : Chip) : Chip :=
  effect policy i (c.byte (c.pc + 1)) (c.byte (c.pc + 2))
    { c with pc := c.pc + UInt16.ofNat i.length }

/-! ## The bus -/

def readCycle (c : Chip) (a : UInt16) : BusCycle := .read a (c.byte a)

def writeCycle (c : Chip) (a : UInt16) (v : UInt8) : BusCycle := .write a v (c.byte a)

def loadCycles (c : Chip) : Operand8 → List BusCycle
  | .reg _ => []
  | .mem => [c.readCycle (c.pair .hl)]

def putCycles (c : Chip) (o : Operand8) (v : UInt8) : List BusCycle :=
  match o with
  | .reg _ => []
  | .mem => [c.writeCycle (c.pair .hl) v]

/-- The data accesses of an instruction. -/
def dataCycles (i : Instr) (low high : UInt8) (c : Chip) : List BusCycle :=
  match i with
  | .mov target source => c.loadCycles source ++ c.putCycles target (c.operand source)
  | .mvi target => c.putCycles target low
  | .stax address => [c.writeCycle (c.pair address) (c.reg .a)]
  | .ldax address => [c.readCycle (c.pair address)]
  | .sta => [c.writeCycle (ofBytes high low) (c.reg .a)]
  | .lda => [c.readCycle (ofBytes high low)]
  | .shld =>
      [c.writeCycle (ofBytes high low) (c.reg .l), c.writeCycle (ofBytes high low + 1) (c.reg .h)]
  | .lhld => [c.readCycle (ofBytes high low), c.readCycle (ofBytes high low + 1)]
  | .inr target => c.loadCycles target ++ c.putCycles target (c.operand target + 1)
  | .dcr target => c.loadCycles target ++ c.putCycles target (c.operand target - 1)
  | .add source | .adc source => c.loadCycles source
  | _ => []

/-- The accesses of one step: the opcode, the operand bytes, and the data. -/
def cycles (i : Instr) (c : Chip) : List BusCycle :=
  [c.readCycle c.pc, c.readCycle (c.pc + 1), c.readCycle (c.pc + 2)].take i.length
    ++ dataCycles i (c.byte (c.pc + 1)) (c.byte (c.pc + 2)) c

end Chip

namespace Instr

/-- Whether an instruction moves data, or nothing at all. -/
def isTransfer : Instr → Bool
  | .nop _ | .mov .. | .mvi _ | .lxi _ | .stax _ | .ldax _ | .sta | .lda | .shld | .lhld => true
  | _ => false

/-- Whether an instruction computes. -/
def isArithmetic (i : Instr) : Bool := !i.isTransfer

end Instr

end Emu8080
