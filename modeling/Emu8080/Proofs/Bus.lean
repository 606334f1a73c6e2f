/-
# Emu8080.Proofs.Bus -- what the bus sees of a step

After a step that succeeds the log holds the accesses of that step and nothing
else: the opcode, the operand bytes as far as the instruction has any, and its
data in order (`Chip.cycles`).  What had been logged before is gone, so the log
stays as short as one instruction makes it, however many steps are taken.

The accesses are not only of the right shape: they replay the memory after the
step from the memory before it, so every read shows the byte that was there, and
every write the byte it stored and the one it replaced.
-/
import Emu8080.Proofs.Replay
import Emu8080.Proofs.Run
import Mathlib.Logic.Function.Iterate

namespace Emu8080.Machine

set_option autoImplicit false

open Emu8080.Action (final final_of_ok final_of_error)

variable {m : Machine}

theorem length_loadCycles_le (c : Chip) (o : Operand8) : (c.loadCycles o).length ≤ 1 := by
  cases o <;> simp [Chip.loadCycles]

theorem length_putCycles_le (c : Chip) (o : Operand8) (v : UInt8) :
    (c.putCycles o v).length ≤ 1 := by
  cases o <;> simp [Chip.putCycles]

/-- An instruction occupies the bus for five accesses at most. -/
theorem length_cycles_le (i : Instr) (c : Chip) : (c.cycles i).length ≤ 5 := by
  rw [Chip.cycles, List.length_append, List.length_take]
  cases i with
  | mov target source =>
    have hload := length_loadCycles_le c source
    have hput := length_putCycles_le c target (c.operand source)
    simp only [Chip.dataCycles, Instr.length, Instr.operandCount, List.length_append]
    omega
  | inr target =>
    have hload := length_loadCycles_le c target
    have hput := length_putCycles_le c target (c.operand target + 1)
    simp only [Chip.dataCycles, Instr.length, Instr.operandCount, List.length_append]
    omega
  | dcr target =>
    have hload := length_loadCycles_le c target
    have hput := length_putCycles_le c target (c.operand target - 1)
    simp only [Chip.dataCycles, Instr.length, Instr.operandCount, List.length_append]
    omega
  | mvi target =>
    have hput := length_putCycles_le c target (c.byte (c.pc + 1))
    simp only [Chip.dataCycles, Instr.length, Instr.operandCount]
    omega
  | add source | adc source =>
    have hload := length_loadCycles_le c source
    simp only [Chip.dataCycles, Instr.length, Instr.operandCount]
    omega
  | _ => simp [Chip.dataCycles, Instr.length, Instr.operandCount]

/-- A step of a ready machine that succeeds was one of an instruction. -/
theorem step_of_ready (h : m.Ready) (policy : FlagPolicy) :
    (∃ i m', m.memory.byteAt m.chip.pc ∈ i.encodings
        ∧ step policy m = .ok (operationOf i m.chip) m'
        ∧ m'.Records (m.chip.next policy i) (m.chip.cycles i))
      ∨ ∃ fault m', Instr.Unimplemented (m.memory.byteAt m.chip.pc)
          ∧ step policy m = .error fault m' ∧ m'.Ready ∧ m'.memory.log.length = 1 := by
  have hshows := h.shows
  cases hopcode : Instr.ofOpcode? (m.memory.byteAt m.chip.pc) with
  | some i =>
    obtain ⟨m', hstep, h'⟩ := step_records hshows hopcode policy
    exact .inl ⟨i, m', (Instr.mem_encodings_iff i _).2 hopcode, hstep, h'⟩
  | none =>
    have hmissing := (Instr.unimplemented_iff _).2 hopcode
    have hcycle := cycle_of_unimplemented hshows.pc (ofInt_toNat _).symm hmissing policy
    exact .inr ⟨_, _, hmissing, (step_of_bus h.bus policy).trans hcycle, h.of_state rfl, rfl⟩

/-- After any step of a ready machine it is ready again, and its log is short. -/
theorem final_step (h : m.Ready) (policy : FlagPolicy) :
    ((step policy).final m).Ready ∧ ((step policy).final m).memory.log.length ≤ 5 := by
  rcases step_of_ready h policy with ⟨i, m', -, hstep, h'⟩ | ⟨fault, m', -, hstep, h', hlength⟩
  · rw [final_of_ok hstep]
    refine ⟨h'.toShows.ready, ?_⟩
    rw [← List.length_map Access.cycle, h'.log]
    exact length_cycles_le i _
  · rw [final_of_error hstep]
    exact ⟨h', by omega⟩

theorem ready_steps (h : m.Ready) (policy : FlagPolicy) (n : Nat) :
    ((step policy).final^[n] m).Ready := by
  induction n with
  | zero => exact h
  | succ n ih =>
    rw [Function.iterate_succ_apply']
    exact (final_step ih policy).1

/-- A step at an instruction succeeds, and a step that succeeds was at an instruction.  Whatever
was logged before it, the log is then that of the instruction: the opcode, its operand bytes and its
data in order, each read with the byte that was there, each write with the byte it stored and the
one it replaced.  No number of steps makes a log of more than five accesses. -/
theorem step_logs (hready : m.Ready) (policy : FlagPolicy) :
    (∀ i, m.memory.byteAt m.chip.pc ∈ i.encodings → ∃ m',
      step policy m = .ok (operationOf i m.chip) m'
      ∧ m'.memory.log.map Access.cycle = m.chip.cycles i
      ∧ m.memory.quiet.replay m'.memory.log = some m'.memory.quiet)
    ∧ (∀ op m', step policy m = .ok op m' → ∃ i : Instr, m.memory.byteAt m.chip.pc ∈ i.encodings)
    ∧ ∀ n, ((step policy).final^[n + 1] m).memory.log.length ≤ 5 := by
  refine ⟨?_, ?_, ?_⟩
  · intro i hi
    obtain ⟨m', hstep, h'⟩ :=
      step_records hready.shows ((Instr.mem_encodings_iff i _).1 hi) policy
    have hcycle : cycle policy m = .ok (operationOf i m.chip) m' := by
      rw [← step_of_bus hready.bus]
      exact hstep
    have hlogged := cycle_logged policy m
    rw [final_of_ok hcycle] at hlogged
    exact ⟨m', hstep, h'.log, hlogged⟩
  · intro op m' hstep
    rcases step_of_ready hready policy with ⟨i, -, hi, -⟩ | ⟨fault, m'', -, herror, -⟩
    · exact ⟨i, hi⟩
    · rw [hstep] at herror
      exact nomatch herror
  · intro n
    rw [Function.iterate_succ_apply']
    exact (final_step (ready_steps hready policy n) policy).2

/-- A word stored from the last address on, over the opcode and an operand byte of the store itself,
with something in the log beforehand. -/
theorem step_logs_around_the_end :
    ∃ op m', step .clear
        { state := { pc := .int 0xFFFF, h := .int 0xAB, l := .int 0xCD }
          memory := (((Memory.zero.store 0xFFFF 0x22).store 0 0xFF).store 1 0xFF).note (.read 7 7) }
          = .ok op m'
      ∧ m'.memory.log.map Access.cycle
        = [.read 0xFFFF 0x22, .read 0 0xFF, .read 1 0xFF, .write 0xFFFF 0xCD 0x22,
            .write 0 0xAB 0xFF] := by
  let m : Machine :=
    { state := { pc := .int 0xFFFF, h := .int 0xAB, l := .int 0xCD }
      memory := (((Memory.zero.store 0xFFFF 0x22).store 0 0xFF).store 1 0xFF).note (.read 7 7) }
  have hwhole : m.state.Whole :=
    { (CpuState.whole_fresh.set .h (d := .int 0xAB) rfl).set .l (d := .int 0xCD) rfl with
      pc := rfl }
  have hbyte : ∀ a, m.chip.byte a
      = if a = 1 then 0xFF else if a = 0 then 0xFF else if a = 0xFFFF then 0x22
        else Memory.zero.byteAt a := by
    intro a
    simp only [m, chip, Memory.byteAt_note, Memory.byteAt_store]
  have hpc : m.chip.pc = 0xFFFF := rfl
  have hcycles : m.chip.cycles .shld
      = [.read 0xFFFF 0x22, .read 0 0xFF, .read 1 0xFF, .write 0xFFFF 0xCD 0x22,
          .write 0 0xAB 0xFF] := by
    simp only [Chip.cycles, Chip.dataCycles, Chip.readCycle, Chip.writeCycle, hpc, hbyte]
    rfl
  have hopcode : m.memory.byteAt m.chip.pc ∈ Instr.shld.encodings := by
    rw [show m.memory.byteAt m.chip.pc = 0x22 from hbyte 0xFFFF]
    decide
  obtain ⟨hsucceeds, -, -⟩ := step_logs ⟨hwhole, rfl, rfl⟩ .clear
  obtain ⟨m', hstep, hlog, -⟩ := hsucceeds .shld hopcode
  exact ⟨_, m', hstep, hlog.trans hcycles⟩

end Emu8080.Machine
