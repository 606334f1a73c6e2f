/-
# Emu8080.Instr.Operation -- a decoded operation

An operation is what decoding leaves and execution takes: the opcode in
hexadecimal, the written form, the operand bytes and how they are shown, the
length, and the flags that may change.  A host can make one by hand out of any
values, so nothing ties its parts together: the opcode may be no numeral, the
operand bytes may be missing or no list, and the length may be no number.  What
is wrong with a part shows when it is used.

Decoding reads the operand bytes over the bus, at the addresses after the opcode
modulo 65536.
-/
import Emu8080.Instr.Opcode
import Emu8080.Memory
import Emu8080.Text.Numeral

namespace Emu8080

set_option autoImplicit false

/-- A decoded operation. -/
structure Operation where
  opcodeHex : Datum
  mnemonic : Datum := .str ""
  operands : Datum := .list []
  operandBytes : Datum := .list []
  length : Datum := .int 1
  affected : Option FlagMask := none

namespace Operation

/-- The opcode that the hexadecimal field names. -/
def opcode (op : Operation) : Except Fault Int :=
  match op.opcodeHex with
  | .str given =>
      match given.chars?.bind Text.hexInt? with
      | some n => .ok n
      | none => .error (.numeral 16 given)
  | _ => .error .wrongKind

/-- Two digits of the opcode. -/
def hexOf (opcode : UInt8) : String := Text.hexField 2 opcode.toNat

/-- The number whose bytes these are, lowest first. -/
def littleEndian : List UInt8 → Nat
  | [] => 0
  | v :: rest => v.toNat + 256 * littleEndian rest

/-- How operand bytes are shown: one number, two digits for each byte. -/
def shown (bytes : List UInt8) : List Text :=
  if bytes.isEmpty then []
  else ["$" ++ Text.hexField (2 * bytes.length) (littleEndian bytes)]

/-- The operation of an instruction with its operand bytes. -/
def ofInstr (opcode : UInt8) (i : Instr) (bytes : List UInt8) : Operation :=
  { opcodeHex := .str (hexOf opcode)
    mnemonic := .str i.mnemonic
    operands := .list ((shown bytes).map .str)
    operandBytes := .list (bytes.map fun v => .int v.toNat)
    length := .int i.length
    affected := some i.affected }

/-- Read `count` bytes over the bus from `offset` bytes after `pc` on. -/
def readBytes (pc : Datum) (offset : Nat) : Nat → Action Memory (List UInt8)
  | 0 => return []
  | count + 1 => do
      let base ← Action.whole pc
      let v ← Memory.read (.int ((base + offset) % 65536))
      return v :: (← readBytes pc (offset + 1) count)

/-- Decode the opcode that stands at `pc`. -/
def decode (opcode : UInt8) (pc : Datum) : Action Memory Operation :=
  match Instr.ofOpcode? opcode with
  | none => throw (Fault.trap opcode pc (.str (Instr.missingMnemonic opcode)))
  | some i => do return ofInstr opcode i (← readBytes pc 1 i.operandCount)

/-- Decode an integer as the opcode that its low byte is. -/
def decodeInt (opcode : Int) (pc : Datum) : Action Memory Operation :=
  decode (UInt8.ofInt opcode) pc

/-- The operand byte at a position. -/
def byteAt (bytes : Datum) (index : Nat) : Except Fault Datum := bytes.item index

end Operation

end Emu8080
