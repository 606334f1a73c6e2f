/-
# Emu8080.Proofs.Step -- one step is one step of the chip

A ready machine with an implemented instruction at its program counter takes a
step, shows `Chip.next` afterwards, and has `Chip.cycles` in its log, whatever
was logged before.  The step is followed in its order: the opcode and the operand
bytes are read, the program counter moves on, the instruction is carried out, and
the check of the state finds nothing.

From this the two halves of the instruction set are settled: the instructions
that compute, and those that only move data.
-/
import Emu8080.Proofs.Cycle
import Emu8080.Proofs.Effect
import Emu8080.Proofs.Encoding

namespace Emu8080

set_option autoImplicit false

open Emu8080.Action (get_bind demand_bind whole_bind bind_of_ok)

/-! ## The check -/

/-- The integers 0 and 1 are bits. -/
theorem Datum.isBit_of_within? {d : Datum} (h : (d.within? 1).isSome) : d.isBit = true := by
  obtain ⟨hint, hle⟩ := isSome_within?_iff.1 h
  have hnumber : d.number = 0 ∨ d.number = 1 := Nat.le_one_iff_eq_zero_or_eq_one.1 hle
  cases d with
  | int n =>
    rw [int?_int, Option.some.injEq] at hint
    rcases hnumber with h0 | h1
    · rw [hint, h0]; rfl
    · rw [hint, h1]; rfl
  | bool b => cases b <;> rfl
  | null | float x | str s | list items | map entries => exact nomatch hint

/-- The check finds nothing wrong with whole values. -/
theorem CpuState.Whole.fault?_eq_none {s : CpuState} (h : s.Whole) : s.fault? = none := by
  have hinside : ∀ entry ∈ s.bounded, (entry.2.2.within? entry.2.1).isSome := by
    intro entry hentry
    rw [bounded, List.mem_append, List.mem_map] at hentry
    rcases hentry with ⟨r, -, rfl⟩ | hwide
    · exact h.reg r
    · simp only [List.mem_cons, List.not_mem_nil, or_false] at hwide
      rcases hwide with rfl | rfl
      · exact h.pc
      · exact h.sp
  have hbounded : s.bounded.find? (fun entry => (entry.2.2.within? entry.2.1).isNone) = none := by
    rw [List.find?_eq_none]
    intro entry hentry
    rw [Bool.not_eq_true, Option.isNone_eq_false_iff]
    exact hinside entry hentry
  have hflag : Flag.all.find? (fun f => !(s.cc.get f).isBit) = none := by
    rw [List.find?_eq_none]
    intro f _
    rw [Datum.isBit_of_within? (h.flag f)]
    exact Bool.false_ne_true
  rw [fault?, hbounded, hflag, if_pos (Datum.isBit_of_within? h.intEnable)]
  rfl

namespace Machine

theorem Ready.validate_eq {m : Machine} (h : m.Ready) : m.state.validate = .ok () := by
  rw [CpuState.validate, if_pos h.checked, h.whole.fault?_eq_none]

/-! ## Fetching -/

/-- The addresses of `count` bytes from `offset` places after an address on. -/
def spots (pc : UInt16) (offset count : Nat) : List UInt16 :=
  (List.range' offset count).map fun k => pc + UInt16.ofNat k

/-- Operand bytes are read at the addresses after the opcode, each leaving its access. -/
theorem readBytes_eq {d : Datum} {n : Int} (hd : d.int? = some n) (count offset : Nat)
    (memory : Memory) :
    ∃ memory', Operation.readBytes d offset count memory
        = .ok ((spots (UInt16.ofInt n) offset count).map memory.byteAt) memory'
      ∧ memory'.bytes = memory.bytes
      ∧ memory'.log = memory.log
        ++ (spots (UInt16.ofInt n) offset count).map fun a => .read a (memory.byteAt a) := by
  induction count generalizing offset memory with
  | zero => exact ⟨memory, rfl, rfl, (List.append_nil _).symm⟩
  | succ count ih =>
    let a := UInt16.ofInt n + UInt16.ofNat offset
    obtain ⟨memory', hrest, hbytes, hlog⟩ :=
      ih (offset + 1) (memory.note (.read a (memory.byteAt a)))
    have hplace : UInt16.ofInt ((n + offset) % 65536) = a := by rw [ofInt_emod, ofInt_add]
    have hread := Memory.read_of_some (Datum.int?_int ((n + offset) % 65536)) memory
    rw [hplace] at hread
    refine ⟨memory', ?_, hbytes, ?_⟩
    · rw [Operation.readBytes, whole_bind hd, bind_of_ok hread, bind_of_ok hrest]
      rfl
    · rw [hlog, Memory.note, List.append_assoc]
      rfl

variable {m : Machine} {c : Chip} {seen : List BusCycle}

theorem decode_records (h : m.Records c seen) {d : Datum} (hd : d.int? = some (c.pc.toNat : Int))
    {opcode : UInt8} {i : Instr} (hi : Instr.ofOpcode? opcode = some i) :
    ∃ m', onMemory (Operation.decode opcode d) m
        = .ok (.ofInstr opcode i ((spots c.pc 1 i.operandCount).map c.byte)) m'
      ∧ m'.Records c (seen ++ (spots c.pc 1 i.operandCount).map c.readCycle) := by
  obtain ⟨memory', hread, hbytes, hlog⟩ := readBytes_eq hd i.operandCount 1 m.memory
  rw [ofInt_toNat] at hread hlog
  have hbyte : m.memory.byteAt = c.byte := funext h.byte
  have hdecode : Operation.decode opcode d m.memory
      = .ok (.ofInstr opcode i ((spots c.pc 1 i.operandCount).map c.byte)) memory' := by
    rw [← hbyte]
    simp only [Operation.decode, hi]
    exact bind_of_ok hread _
  refine ⟨{ m with memory := memory' }, onMemory_of_ok hdecode, { h with byte := ?_, log := ?_ }⟩
  · intro a
    rw [← h.byte a, Memory.byteAt, Memory.byteAt]
    simp only [hbytes]
  · rw [hlog, List.map_append, h.log, List.map_map, hbyte]
    rfl

/-- The operand bytes of a decoded operation are the bytes after its opcode. -/
theorem operands_spots (c : Chip) {count : Nat} (h : count ≤ 2) :
    Instr.Operands (.list (((spots c.pc 1 count).map c.byte).map fun v => .int v.toNat)) count
      (c.byte (c.pc + 1)) (c.byte (c.pc + 2)) := by
  rcases count with _ | _ | _ | count
  · exact ⟨fun hfirst => absurd hfirst (by decide), fun hsecond => absurd hsecond (by decide)⟩
  · exact ⟨fun _ => rfl, fun hsecond => absurd hsecond (by decide)⟩
  · exact ⟨fun _ => rfl, fun _ => rfl⟩
  · omega

theorem cycles_eq (i : Instr) (c : Chip) :
    c.cycles i = [c.readCycle c.pc] ++ (spots c.pc 1 i.operandCount).map c.readCycle
      ++ c.dataCycles i (c.byte (c.pc + 1)) (c.byte (c.pc + 2)) := by
  cases i <;> rfl

/-- The program counter takes no part in what an instruction reads and writes. -/
theorem dataCycles_pc (i : Instr) (low high : UInt8) (c : Chip) (pc : UInt16) :
    Chip.dataCycles i low high { c with pc } = c.dataCycles i low high := by
  cases i with
  | mov target source => cases target <;> cases source <;> rfl
  | mvi o | inr o | dcr o | add o | adc o => cases o <;> rfl
  | stax p | ldax p => cases p <;> rfl
  | _ => rfl

/-- A decoded operation is carried out as its instruction. -/
theorem execute_ofInstr {opcode : UInt8} {i : Instr} (hi : Instr.ofOpcode? opcode = some i)
    (bytes : List UInt8) (policy : FlagPolicy) (m : Machine) :
    (Operation.ofInstr opcode i bytes).execute policy m
      = i.execute (.list (bytes.map fun v => .int v.toNat)) (some i.affected) policy m := by
  have hbyte := opcode.toNat_lt
  have hcode : 0 ≤ (opcode.toNat : Int) ∧ (opcode.toNat : Int) < 256 := by omega
  rw [Operation.execute, demand_bind (Operation.opcode_ofInstr opcode i bytes), if_pos hcode]
  simp only [ofInt_byte_toNat, hi]
  rfl

theorem Shows.quiet (h : m.Shows c) : m.quiet.Records c [] := { h with log := rfl }

/-- The operation of the instruction that stands at the program counter. -/
def operationOf (i : Instr) (c : Chip) : Operation :=
  .ofInstr (c.byte c.pc) i ((spots c.pc 1 i.operandCount).map c.byte)

/-- One step of a machine that shows a chip, with its log. -/
theorem step_records (h : m.Shows c) {i : Instr} (hi : Instr.ofOpcode? (c.byte c.pc) = some i)
    (policy : FlagPolicy) :
    ∃ m', step policy m = .ok (operationOf i c) m'
      ∧ m'.Records (c.next policy i) (c.cycles i) := by
  have hcount : i.operandCount ≤ 2 := by
    have hlength := i.length_le_three
    rw [Instr.length] at hlength
    omega
  have hadvance : (Datum.int (((c.pc.toNat : Int) + i.length) % 65536)).int?
      = some ((c.pc + UInt16.ofNat i.length).toNat : Int) := by
    rw [Datum.int?_int, advance_toNat]
  have hpc : m.quiet.state.pc.int? = some (c.pc.toNat : Int) := h.pc
  obtain ⟨m₁, hfetch, h₁⟩ := read_records h.quiet hpc
  obtain ⟨m₂, hdecode, h₂⟩ := decode_records h₁ hpc hi
  obtain ⟨m₃, hrun, h₃⟩ :=
    Instr.execute_records i (h₂.setPc hadvance) (operands_spots c hcount) policy
  have hvalid := h₃.toShows.ready.validate_eq
  refine ⟨m₃, ?_, ?_⟩
  · rw [step, bind_of_ok (reach_of_bus h.bus), bind_of_ok (takeLog_eq m), get_bind]
    rw [bind_of_ok hfetch, bind_of_ok hdecode, whole_bind hpc, whole_bind rfl, modifyState_bind]
    rw [bind_of_ok ((execute_ofInstr hi _ policy _).trans hrun), get_bind, demand_bind hvalid]
    rfl
  · rw [dataCycles_pc] at h₃
    rw [cycles_eq]
    exact h₃

/-! ## The two halves of the instruction set -/

/-- An instruction that computes is one byte long and has no operand bytes. -/
theorem next_of_isArithmetic {i : Instr} (hi : i.isArithmetic = true) (policy : FlagPolicy)
    (c : Chip) :
    c.next policy i = Chip.effect policy i 0 0 { c with pc := c.pc + 1 } := by
  cases i with
  | inx p | dcx p | dad p | inr o | dcr o | add o | adc o | rotate how | cma | stc | cmc => rfl
  | _ => exact absurd hi Bool.false_ne_true

/-- An instruction that moves data changes no flag and not the interrupt enable bit. -/
theorem bits_of_isTransfer {i : Instr} (hi : i.isTransfer = true) (policy : FlagPolicy) (c : Chip) :
    (c.next policy i).flag = c.flag ∧ (c.next policy i).intEnable = c.intEnable := by
  cases i with
  | mov target source => cases target <;> exact ⟨rfl, rfl⟩
  | mvi target => cases target <;> exact ⟨rfl, rfl⟩
  | lxi target => cases target <;> exact ⟨rfl, rfl⟩
  | nop documented | stax p | ldax p | sta | lda | shld | lhld => exact ⟨rfl, rfl⟩
  | _ => exact absurd hi Bool.false_ne_true

/-- An instruction that computes leaves a ready machine with the result and the flags that its
description gives, at the next address, and with everything else as it was. -/
theorem step_computes (hready : m.Ready) {i : Instr} (hi : i.isArithmetic = true)
    (hopcode : m.memory.byteAt m.chip.pc ∈ i.encodings) :
    ∃ m', step .preserve m = .ok (operationOf i m.chip) m'
      ∧ m'.Shows (Chip.effect .preserve i 0 0 { m.chip with pc := m.chip.pc + 1 }) := by
  have hdecoded : Instr.ofOpcode? (m.chip.byte m.chip.pc) = some i :=
    (Instr.mem_encodings_iff i _).1 hopcode
  obtain ⟨m', hstep, h'⟩ := step_records hready.shows hdecoded .preserve
  rw [next_of_isArithmetic hi] at h'
  exact ⟨m', hstep, h'.toShows⟩

/-- Incrementing the greatest byte. -/
theorem step_increments_greatest :
    ∃ m', step .preserve { state := { a := .int 0xFF }, memory := Memory.zero.store 0 0x3C }
        = .ok (.ofInstr 0x3C (.inr (.reg .a)) []) m'
      ∧ (m'.state.get .a).int? = some 0 ∧ (m'.state.cc.get .z).int? = some 1 := by
  let m : Machine := { state := { a := .int 0xFF }, memory := Memory.zero.store 0 0x3C }
  have hwhole : m.state.Whole := CpuState.whole_fresh.set .a rfl
  have hbyte : m.memory.byteAt m.chip.pc = 0x3C := Memory.byteAt_store _ 0 0 0x3C
  have hopcode : m.memory.byteAt m.chip.pc ∈ (Instr.inr (.reg .a)).encodings := by
    rw [hbyte]
    decide
  obtain ⟨m', hstep, h'⟩ := step_computes ⟨hwhole, rfl, rfl⟩ rfl hopcode
  let c' := Chip.effect .preserve (.inr (.reg .a)) 0 0 { m.chip with pc := m.chip.pc + 1 }
  have ha : c'.reg .a = 0 := by decide
  have hz : c'.flag .z = true := by decide
  refine ⟨m', ?_, ?_, ?_⟩
  · rw [hstep, operationOf]
    exact congrArg (fun o => EStateM.Result.ok (Operation.ofInstr o _ []) m') hbyte
  · rw [h'.reg .a, ha]
    rfl
  · rw [h'.flag .z, hz]
    rfl

/-- An instruction that moves data has, under either policy, the effect of its description:
flags and interrupt enable stay, and of the rest only what it moves to changes. -/
theorem step_transfers (hready : m.Ready) {i : Instr} (hi : i.isTransfer = true)
    (hopcode : m.memory.byteAt m.chip.pc ∈ i.encodings) (policy : FlagPolicy) :
    ∃ m', step policy m = .ok (operationOf i m.chip) m'
      ∧ m'.Shows (m.chip.next policy i)
      ∧ (∀ f, (m'.state.cc.get f).int? = (m.state.cc.get f).int?)
      ∧ m'.state.intEnable.int? = m.state.intEnable.int? := by
  have hshows := hready.shows
  have hdecoded : Instr.ofOpcode? (m.chip.byte m.chip.pc) = some i :=
    (Instr.mem_encodings_iff i _).1 hopcode
  obtain ⟨m', hstep, h'⟩ := step_records hshows hdecoded policy
  obtain ⟨hflag, hintEnable⟩ := bits_of_isTransfer hi policy m.chip
  refine ⟨m', hstep, h'.toShows, ?_, ?_⟩
  · intro f
    rw [h'.flag f, hshows.flag f, hflag]
  · rw [h'.intEnable, hshows.intEnable, hintEnable]

/-- A word that is stored over the operand bytes of its own store: the address is the one that
stood there before. -/
theorem step_stores_over_itself :
    ∃ op m', step .clear
        { state := { h := .int 0xAB, l := .int 0xCD }
          memory := ((Memory.zero.store 0 0x22).store 1 0x01).store 2 0x00 } = .ok op m'
      ∧ m'.memory.byteAt 1 = 0xCD ∧ m'.memory.byteAt 2 = 0xAB
      ∧ m'.state.pc.int? = some 3 := by
  let m : Machine :=
    { state := { h := .int 0xAB, l := .int 0xCD }
      memory := ((Memory.zero.store 0 0x22).store 1 0x01).store 2 0x00 }
  have hwhole : m.state.Whole := (CpuState.whole_fresh.set .h rfl).set .l rfl
  have hbyte : m.memory.byteAt m.chip.pc = 0x22 := by
    simp only [m, Memory.byteAt_store]
    rfl
  have hlow : m.chip.byte (m.chip.pc + 1) = 0x01 := by
    simp only [m, chip, Memory.byteAt_store]
    rfl
  have hhigh : m.chip.byte (m.chip.pc + 2) = 0x00 := by
    simp only [m, chip, Memory.byteAt_store]
    rfl
  have hopcode : m.memory.byteAt m.chip.pc ∈ Instr.shld.encodings := by
    rw [hbyte]
    decide
  obtain ⟨m', hstep, h', -⟩ := step_transfers ⟨hwhole, rfl, rfl⟩ rfl hopcode .clear
  rw [Chip.next, hlow, hhigh] at h'
  refine ⟨_, m', hstep, (h'.byte 1).trans rfl, (h'.byte 2).trans rfl, ?_⟩
  rw [h'.pc]
  rfl

end Machine

end Emu8080
