/-
# Emu8080.Instr.Basic -- the implemented instructions

Data transfer, register and pair arithmetic, addition to the accumulator, the
single-operand instructions and the idle one.  An instruction knows how many
bytes it occupies, which flags it may change, and how it is written.
-/
import Emu8080.Register
import Emu8080.Flags

namespace Emu8080

set_option autoImplicit false

/-- The four rotations of the accumulator. -/
inductive Rotation
  | left | right | leftThroughCarry | rightThroughCarry
deriving DecidableEq, Repr

/-- A decoded instruction without its operand bytes. -/
inductive Instr
  /-- Do nothing; the undocumented opcodes that idle as well are marked. -/
  | nop (documented : Bool)
  | mov (target source : Operand8)
  | mvi (target : Operand8)
  | lxi (target : Pair)
  | stax (address : Pair)
  | ldax (address : Pair)
  | sta | lda | shld | lhld
  | inx (target : Pair)
  | dcx (target : Pair)
  | dad (source : Pair)
  | inr (target : Operand8)
  | dcr (target : Operand8)
  | add (source : Operand8)
  | adc (source : Operand8)
  | rotate (how : Rotation)
  | cma | stc | cmc
deriving DecidableEq, Repr

namespace Instr

/-- How many operand bytes follow the opcode. -/
def operandCount : Instr → Nat
  | .mvi _ => 1
  | .lxi _ | .sta | .lda | .shld | .lhld => 2
  | _ => 0

/-- How many bytes the instruction occupies. -/
def length (i : Instr) : Nat := 1 + i.operandCount

/-- The flags the instruction is declared to change. -/
def affected : Instr → FlagMask
  | .inr _ | .dcr _ => FlagMask.ofList [.z, .s, .p, .ac]
  | .dad _ | .rotate _ | .stc | .cmc => FlagMask.ofList [.cy]
  | .add _ | .adc _ => FlagMask.ofList Flag.all
  | _ => FlagMask.ofList []

def Rotation.label : Rotation → String
  | .left => "RLC"
  | .right => "RRC"
  | .leftThroughCarry => "RAL"
  | .rightThroughCarry => "RAR"

/-- The written form; operand bytes appear as `D8`, `D16` or `adr`. -/
def mnemonic : Instr → String
  | .nop documented => if documented then "NOP" else "*NOP"
  | .mov target source => "MOV " ++ target.label ++ "," ++ source.label
  | .mvi target => "MVI " ++ target.label ++ ",D8"
  | .lxi target => "LXI " ++ target.label ++ ",D16"
  | .stax address => "STAX " ++ address.label
  | .ldax address => "LDAX " ++ address.label
  | .sta => "STA adr"
  | .lda => "LDA adr"
  | .shld => "SHLD adr"
  | .lhld => "LHLD adr"
  | .inx target => "INX " ++ target.label
  | .dcx target => "DCX " ++ target.label
  | .dad source => "DAD " ++ source.label
  | .inr target => "INR " ++ target.label
  | .dcr target => "DCR " ++ target.label
  | .add source => "ADD " ++ source.label
  | .adc source => "ADC " ++ source.label
  | .rotate how => Rotation.label how
  | .cma => "CMA"
  | .stc => "STC"
  | .cmc => "CMC"

theorem length_le_three (i : Instr) : i.length ≤ 3 := by
  cases i <;> simp [length, operandCount]

end Instr

end Emu8080
