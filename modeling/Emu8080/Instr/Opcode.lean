/-
# Emu8080.Instr.Opcode -- from opcodes to instructions

An opcode splits into two bits that name a page and two fields of three bits.
The first page holds eight columns of mixed instructions, the second the moves,
the third addition to the accumulator.  What has no implementation is named in
`missingMnemonic`: the rest of the third page, the whole fourth, and four opcodes
of the first two.
-/
import Emu8080.Instr.Basic

namespace Emu8080.Instr

set_option autoImplicit false

/-- The instruction in a column and row of the first page. -/
def firstPage? (row column : Nat) : Option Instr :=
  match column, row with
  | 0, 0 => some (.nop true)
  | 0, 4 => none
  | 0, 6 => none
  | 0, _ => some (.nop false)
  | 1, _ => some (if row % 2 = 0 then .lxi (Pair.ofCode (row / 2)) else .dad (Pair.ofCode (row / 2)))
  | 2, 0 => some (.stax .bc)
  | 2, 1 => some (.ldax .bc)
  | 2, 2 => some (.stax .de)
  | 2, 3 => some (.ldax .de)
  | 2, 4 => some .shld
  | 2, 5 => some .lhld
  | 2, 6 => some .sta
  | 2, _ => some .lda
  | 3, _ => some (if row % 2 = 0 then .inx (Pair.ofCode (row / 2)) else .dcx (Pair.ofCode (row / 2)))
  | 4, _ => some (.inr (Operand8.ofCode row))
  | 5, _ => some (.dcr (Operand8.ofCode row))
  | 6, _ => some (.mvi (Operand8.ofCode row))
  | _, 0 => some (.rotate .left)
  | _, 1 => some (.rotate .right)
  | _, 2 => some (.rotate .leftThroughCarry)
  | _, 3 => some (.rotate .rightThroughCarry)
  | _, 4 => none
  | _, 5 => some .cma
  | _, 6 => some .stc
  | _, _ => some .cmc

/-- The instruction of an opcode, if it is implemented. -/
def ofOpcode? (opcode : UInt8) : Option Instr :=
  let row := opcode.toNat / 8 % 8
  let column := opcode.toNat % 8
  match opcode.toNat / 64 with
  | 0 => firstPage? row column
  | 1 =>
      match Operand8.ofCode row, Operand8.ofCode column with
      | .mem, .mem => none
      | target, source => some (.mov target source)
  | 2 =>
      match row with
      | 0 => some (.add (Operand8.ofCode column))
      | 1 => some (.adc (Operand8.ofCode column))
      | _ => none
  | _ => none

/-- The groups of the third page that are missing, by row. -/
def missingGroups : List String := ["SUB", "SBB", "ANA", "XRA", "ORA", "CMP"]

/-- The fourth page. -/
def lastPage : List String := [
  "RNZ", "POP B", "JNZ adr", "JMP adr", "CNZ adr", "PUSH B", "ADI D8", "RST 0",
  "RZ", "RET", "JZ adr", "*JMP adr", "CZ adr", "CALL adr", "ACI D8", "RST 1",
  "RNC", "POP D", "JNC adr", "OUT D8", "CNC adr", "PUSH D", "SUI D8", "RST 2",
  "RC", "*RET", "JC adr", "IN D8", "CC adr", "*CALL adr", "SBI D8", "RST 3",
  "RPO", "POP H", "JPO adr", "XTHL", "CPO adr", "PUSH H", "ANI D8", "RST 4",
  "RPE", "PCHL", "JPE adr", "XCHG", "CPE adr", "*CALL adr", "XRI D8", "RST 5",
  "RP", "POP PSW", "JP adr", "DI", "CP adr", "PUSH PSW", "ORI D8", "RST 6",
  "RM", "SPHL", "JM adr", "EI", "CM adr", "*CALL adr", "CPI D8", "RST 7"]

/-- How an opcode without an implementation would be written. -/
def missingMnemonic (opcode : UInt8) : String :=
  let n := opcode.toNat
  if n = 0x20 then "RIM"
  else if n = 0x27 then "DAA"
  else if n = 0x30 then "SIM"
  else if n = 0x76 then "HLT"
  else if 0x90 ≤ n ∧ n < 0xC0 then
    missingGroups.getD ((n - 0x90) / 8) "" ++ " " ++ (Operand8.ofCode n).label
  else if 0xC0 ≤ n then lastPage.getD (n - 0xC0) ""
  else ""

/-- Every opcode in ascending order. -/
def opcodes : List UInt8 := (List.range 256).map UInt8.ofNat

def implemented : List UInt8 := opcodes.filter fun o => (ofOpcode? o).isSome

def unimplemented : List UInt8 := opcodes.filter fun o => (ofOpcode? o).isNone

/-- The last page names a quarter of the opcodes. -/
example : lastPage.length = 64 := rfl

/-- An opcode is either implemented or named as missing. -/
theorem missingMnemonic_ne_empty (o : UInt8) (h : ofOpcode? o = none) :
    missingMnemonic o ≠ "" := by
  have key : ∀ n : Fin 256, ofOpcode? (UInt8.ofNat n.val) = none →
      missingMnemonic (UInt8.ofNat n.val) ≠ "" := by decide +kernel
  have := key ⟨o.toNat, o.toNat_lt⟩
  simp only [UInt8.ofNat_toNat] at this
  exact this h

end Emu8080.Instr
