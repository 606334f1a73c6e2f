/-
# Emu8080.Proofs.Decoding -- what decoding an opcode gives

The manual lists how many bytes follow an opcode: one after the eight that move
an immediate byte, two after the four that load a pair and the four with a direct
address, none after the others (`Instr.bytesAfter`).  Decoding reads that many
bytes over the bus, at the addresses after the opcode, and nothing else happens to
the memory.  The operation that it gives describes the opcode and these bytes in
each of its fields: the opcode is found again in its hexadecimal field, and the
shown operand reads as the number that the bytes make, low byte first.
-/
import Emu8080.Proofs.Numeral
import Emu8080.Proofs.Step

namespace Emu8080

set_option autoImplicit false

open Emu8080.Action (bind_of_ok)
open Emu8080.Machine (spots readBytes_eq)

/-- How many bytes follow an opcode. -/
def Instr.bytesAfter (o : UInt8) : Nat :=
  if o ∈ [0x06, 0x0E, 0x16, 0x1E, 0x26, 0x2E, 0x36, 0x3E] then 1
  else if o ∈ [0x01, 0x11, 0x21, 0x31, 0x22, 0x2A, 0x32, 0x3A] then 2
  else 0

theorem Instr.operandCount_eq : ∀ o : UInt8, ∀ i ∈ ofOpcode? o, i.operandCount = bytesAfter o :=
  forall_byte (by decide +kernel)

namespace Operation

/-- The addresses of the bytes after an opcode at `pc`, modulo the size of the space. -/
def placesAfter (pc : Int) (count : Nat) : List UInt16 :=
  (List.range count).map fun (k : Nat) => UInt16.ofInt (pc + 1 + k)

theorem spots_eq_placesAfter (pc : Int) (count : Nat) :
    spots (UInt16.ofInt pc) 1 count = placesAfter pc count := by
  rw [spots, placesAfter, List.range'_eq_map_range, List.map_map]
  refine List.map_congr_left fun k _ => ?_
  rw [Function.comp_apply, ← ofInt_add, Nat.cast_add, Nat.cast_one, Int.add_assoc]

theorem length_placesAfter (pc : Int) (count : Nat) : (placesAfter pc count).length = count := by
  rw [placesAfter, List.length_map, List.length_range]

/-- The operands of an operation show its operand bytes: none if there are none, else one text, a
dollar sign and two digits of upper case for each byte, which read as the number that the bytes
make, low byte first. -/
def ShowsBytes (operands : Datum) (bytes : List UInt8) : Prop :=
  if bytes = [] then operands = .list []
  else ∃ digits : List Char, operands = .list [.str (Text.ofList ('$' :: digits))]
    ∧ digits.length = 2 * bytes.length ∧ (∀ c ∈ digits, c ∈ Text.upperDigits)
    ∧ Text.hexInt? digits = some (littleEndian bytes : Int)

/-- The operation describes an opcode with its operand bytes. -/
structure Describes (op : Operation) (o : UInt8) (bytes : List UInt8) : Prop where
  opcode : op.opcode = .ok (o.toNat : Int)
  length : op.length = .int (1 + bytes.length)
  operandBytes : op.operandBytes = .list (bytes.map fun v => .int v.toNat)
  operands : ShowsBytes op.operands bytes

theorem showsBytes_shown (bytes : List UInt8) :
    ShowsBytes (.list ((shown bytes).map .str)) bytes := by
  cases bytes with
  | nil => exact rfl
  | cons v rest =>
    have hwidth : 0 < 2 * (v :: rest).length := by
      rw [List.length_cons]
      omega
    have hfits : littleEndian (v :: rest) < 16 ^ (2 * (v :: rest).length) := by
      rw [Nat.pow_mul]
      exact littleEndian_lt (v :: rest)
    have hfield := Text.hexField_of_lt hwidth hfits
    rw [ShowsBytes, if_neg (List.cons_ne_nil v rest)]
    refine ⟨(Text.hexField (2 * (v :: rest).length) (littleEndian (v :: rest))).toList, ?_, hfield⟩
    rw [shown]
    rfl

/-- The high byte comes first, with its zero. -/
example : shown [0xCD, 0x0B] = [Text.ofString "$0BCD"] := by decide +kernel

theorem describes_ofInstr {o : UInt8} {i : Instr} {bytes : List UInt8}
    (hcount : bytes.length = i.operandCount) : (ofInstr o i bytes).Describes o bytes where
  opcode := opcode_ofInstr o i bytes
  length := by
    rw [hcount]
    rfl
  operandBytes := rfl
  operands := showsBytes_shown bytes

/-- **Decoding is exact.**  An integer counts as an opcode by its low byte.  If that is implemented,
decoding succeeds with an operation that describes it and the bytes after it, at the addresses after
`pc` modulo the size of the space; these bytes have been read over the bus in order, and the contents
of the memory are as they were.  If it is not, decoding faults with the opcode and the place it was
given, and leaves the memory alone. -/
theorem decode_describes (opcode pc : Int) (m : Memory) :
    let o := UInt8.ofInt opcode
    let places := placesAfter pc (Instr.bytesAfter o)
    (o.toNat : Int) = opcode % 256 ∧
      if Instr.Unimplemented o then
        decodeInt opcode (.int pc) m
          = .error (.unimplemented o (.int pc) (.str (Instr.missingMnemonic o))) m
      else
        ∃ op m', decodeInt opcode (.int pc) m = .ok op m'
          ∧ op.Describes o (places.map m.byteAt)
          ∧ m'.bytes = m.bytes
          ∧ m'.log = m.log ++ places.map fun a => .read a (m.byteAt a) := by
  intro o places
  refine ⟨?_, ?_⟩
  · simp only [o, UInt8.ofInt, UInt8.toNat_ofNat']
    omega
  · split
    next hmissing =>
      have hnone := (Instr.unimplemented_iff o).1 hmissing
      show decode o (.int pc) m = _
      rw [decode, hnone]
      rfl
    next himplemented =>
      obtain ⟨i, hi⟩ := Option.ne_none_iff_exists'.1 (mt (Instr.unimplemented_iff o).2 himplemented)
      have hplaces : places = placesAfter pc i.operandCount := by
        rw [Instr.operandCount_eq o i hi]
      obtain ⟨m', hread, hbytes, hlog⟩ := readBytes_eq (Datum.int?_int pc) i.operandCount 1 m
      rw [spots_eq_placesAfter, ← hplaces] at hread hlog
      have hdecode : decodeInt opcode (.int pc) m
          = .ok (ofInstr o i (places.map m.byteAt)) m' := by
        show decode o (.int pc) m = _
        rw [decode, hi]
        exact bind_of_ok hread _
      have hlength : (places.map m.byteAt).length = i.operandCount := by
        rw [List.length_map, hplaces, length_placesAfter]
      exact ⟨_, m', hdecode, describes_ofInstr hlength, hbytes, hlog⟩

end Operation
end Emu8080
