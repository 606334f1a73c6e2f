/-
# Emu8080.Proofs.Encoding -- the opcodes of the instruction set

`Instr.ofOpcode?` takes opcodes apart.  `Instr.encodings` puts them together as
the manual prints them: a base for each instruction, with the code of an operand
shifted into its field.  The two agree on every opcode (`mem_encodings_iff`), so
what is said of an instruction may be said of its opcodes, whichever way they
are found.

`Unimplemented` lists the opcodes that stand for nothing, and `opcode_ofInstr`
says that the opcode is found again in the hexadecimal field of an operation.
-/
import Emu8080.Instr.Operation

namespace Emu8080

set_option autoImplicit false

/-- The three bits that name a byte operand. -/
def Operand8.code : Operand8 → Nat
  | .reg .b => 0
  | .reg .c => 1
  | .reg .d => 2
  | .reg .e => 3
  | .reg .h => 4
  | .reg .l => 5
  | .mem => 6
  | .reg .a => 7

/-- The two bits that name a pair. -/
def Pair.code : Pair → Nat
  | .bc => 0
  | .de => 1
  | .hl => 2
  | .sp => 3

namespace Instr

/-- An opcode with a byte operand in bits 3 to 5. -/
def withTarget (base : Nat) (o : Operand8) : UInt8 := UInt8.ofNat (base + 8 * o.code)

/-- An opcode with a pair in bits 4 and 5. -/
def withPair (base : Nat) (p : Pair) : UInt8 := UInt8.ofNat (base + 16 * p.code)

/-- The opcodes of an instruction.  A move from memory to memory has none, and only two pairs
can be addresses of the accumulator's own loads and stores. -/
def encodings : Instr → List UInt8
  | .nop true => [0x00]
  | .nop false => [0x08, 0x10, 0x18, 0x28, 0x38]
  | .mov .mem .mem => []
  | .mov target source => [UInt8.ofNat (0x40 + 8 * target.code + source.code)]
  | .mvi target => [withTarget 0x06 target]
  | .lxi target => [withPair 0x01 target]
  | .stax .bc => [0x02]
  | .stax .de => [0x12]
  | .stax _ => []
  | .ldax .bc => [0x0A]
  | .ldax .de => [0x1A]
  | .ldax _ => []
  | .shld => [0x22]
  | .lhld => [0x2A]
  | .sta => [0x32]
  | .lda => [0x3A]
  | .inx target => [withPair 0x03 target]
  | .dcx target => [withPair 0x0B target]
  | .dad source => [withPair 0x09 source]
  | .inr target => [withTarget 0x04 target]
  | .dcr target => [withTarget 0x05 target]
  | .add source => [UInt8.ofNat (0x80 + source.code)]
  | .adc source => [UInt8.ofNat (0x88 + source.code)]
  | .rotate .left => [0x07]
  | .rotate .right => [0x0F]
  | .rotate .leftThroughCarry => [0x17]
  | .rotate .rightThroughCarry => [0x1F]
  | .cma => [0x2F]
  | .stc => [0x37]
  | .cmc => [0x3F]

/-- The opcodes without an implementation: RIM, DAA, SIM and HLT, the rest of the third page and
the whole fourth. -/
def Unimplemented (o : UInt8) : Prop :=
  o = 0x20 ∨ o = 0x27 ∨ o = 0x30 ∨ o = 0x76 ∨ 0x90 ≤ o

instance (o : UInt8) : Decidable (Unimplemented o) := by
  unfold Unimplemented
  infer_instance

/-- What holds of every number below 256 holds of every byte. -/
theorem forall_byte {p : UInt8 → Prop} (h : ∀ n : Fin 256, p (UInt8.ofNat n.val)) (o : UInt8) :
    p o := by
  have hbyte := h ⟨o.toNat, o.toNat_lt⟩
  rwa [UInt8.ofNat_toNat] at hbyte

theorem ofOpcode?_of_mem_encodings (i : Instr) : ∀ o ∈ i.encodings, ofOpcode? o = some i := by
  have hall : i.encodings.all (fun o => ofOpcode? o == some i) = true := by
    cases i with
    | nop documented => cases documented <;> rfl
    | mov target source =>
      rcases target with ⟨⟨⟩⟩ | _ <;> rcases source with ⟨⟨⟩⟩ | _ <;> rfl
    | mvi o | inr o | dcr o | add o | adc o => rcases o with ⟨⟨⟩⟩ | _ <;> rfl
    | lxi p | stax p | ldax p | inx p | dcx p | dad p => cases p <;> rfl
    | rotate how => cases how <;> rfl
    | sta | lda | shld | lhld | cma | stc | cmc => rfl
  intro o ho
  exact beq_iff_eq.1 (List.all_eq_true.1 hall o ho)

/-- Taking an opcode apart and putting instructions together agree. -/
theorem mem_encodings_iff (i : Instr) (o : UInt8) : o ∈ i.encodings ↔ ofOpcode? o = some i := by
  constructor
  · exact ofOpcode?_of_mem_encodings i o
  · have hmem : ∀ o, ∀ i ∈ ofOpcode? o, o ∈ i.encodings := forall_byte (by decide +kernel)
    exact hmem o i

theorem unimplemented_iff : ∀ o, Unimplemented o ↔ ofOpcode? o = none :=
  forall_byte (by decide +kernel)

end Instr

/-- The opcode of a decoded operation is the one it was decoded from. -/
theorem Operation.opcode_ofInstr (o : UInt8) (i : Instr) (bytes : List UInt8) :
    (Operation.ofInstr o i bytes).opcode = .ok (o.toNat : Int) := by
  have hread : ∀ o : UInt8,
      (Text.ofString (hexOf o)).chars?.bind Text.hexInt? = some (o.toNat : Int) :=
    Instr.forall_byte (by decide +kernel)
  simp only [Operation.opcode, Operation.ofInstr]
  rw [hread o]

end Emu8080
