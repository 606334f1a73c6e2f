/-
# Emu8080.Proofs.Trajectory -- one instruction after another

A trajectory is what comes of a debugger that executes one instruction after
another, without looking at breakpoints, bounds or observers.  An opcode without
an implementation is passed over if the debugger does so in its runs, and is the
end of the trajectory if not.

What an instruction comes to depends on the numbers in the machine alone
(`Chip.outcome?`): the operation, the cycles on the bus, and the chip that is
shown afterwards.  `Cpu.Performs` says that a processor bore an outcome out, and
`proceed_of_outcome` and `proceed_of_stuck` are the two ways that a debugger can
go, each with the round of a run that goes the same way.
-/
import Emu8080.Proofs.Replay
import Emu8080.Proofs.Run
import Mathlib.Logic.Function.Iterate

namespace Emu8080

set_option autoImplicit false

open Emu8080.Action (get_bind bind_of_ok final_of_ok final_of_error value?_of_ok
  value?_of_error)

/-! ## Outcomes -/

namespace Chip

/-- What an instruction comes to: its operation, what the bus sees, and the chip after it. -/
structure Outcome where
  operation : Operation
  cycles : List BusCycle
  next : Chip

/-- What the next instruction comes to.  An opcode without an implementation is passed over as
one byte, after it was read, or comes to nothing. -/
def outcome? (policy : FlagPolicy) (skips : Bool) (c : Chip) : Option Outcome :=
  match Instr.ofOpcode? (c.byte c.pc) with
  | some i => some ⟨Machine.operationOf i c, c.cycles i, c.next policy i⟩
  | none =>
      if skips then
        let mnemonic := Instr.missingMnemonic (c.byte c.pc)
        some
          { operation := Debugger.skipOperation (c.byte c.pc) (.str mnemonic)
            cycles := [c.readCycle c.pc]
            next := { c with pc := c.pc + 1 } }
      else none

theorem outcome?_eq_none_iff {policy : FlagPolicy} {skips : Bool} {c : Chip} :
    c.outcome? policy skips = none
      ↔ skips = false ∧ Instr.Unimplemented (c.byte c.pc) := by
  rw [Instr.unimplemented_iff, outcome?]
  cases Instr.ofOpcode? (c.byte c.pc) <;> cases skips <;> simp

end Chip

namespace Cpu

/-- The processor `c` came to `c'` with this snapshot, and so bore the outcome out. -/
structure Performs (c : Cpu) (o : Chip.Outcome) (s : Snapshot) (c' : Cpu) : Prop where
  operation : s.operation = o.operation
  initialPc : s.initialPc = c.state.pc
  cycles : s.activity.map Access.cycle = o.cycles
  replays : c.memory.quiet.replay s.activity = some c'.memory.quiet
  state : s.state = c'.state
  shows : c'.machine.Shows o.next
  policy : c'.policy = c.policy

variable {c : Cpu} {chip : Chip}

theorem step_performs (h : c.machine.Shows chip) {i : Instr}
    (hi : Instr.ofOpcode? (chip.byte chip.pc) = some i) :
    ∃ s c', step c = .ok s c'
      ∧ c.Performs ⟨Machine.operationOf i chip, chip.cycles i, chip.next c.policy i⟩ s c' := by
  obtain ⟨m, hcycle, hrecords⟩ := Machine.step_records h hi c.policy
  rw [Machine.step_of_bus h.bus] at hcycle
  have hlogged := Machine.cycle_logged c.policy c.machine
  rw [final_of_ok hcycle] at hlogged
  refine ⟨_, _, step_of_ok hcycle, ?_⟩
  exact
    { operation := rfl
      initialPc := rfl
      cycles := hrecords.log
      replays := hlogged
      state := rfl
      shows := hrecords.toShows.quiet.toShows
      policy := rfl }

/-- At an opcode without an implementation the opcode is read, and nothing else happens. -/
theorem step_of_missing (h : c.machine.Shows chip)
    (hopcode : Instr.Unimplemented (chip.byte chip.pc)) :
    step c = .error (trapFault (chip.byte chip.pc) c.state.pc)
      { c with machine := c.machine.fetched chip.pc } := by
  have hbyte : c.machine.memory.byteAt chip.pc = chip.byte chip.pc := h.byte chip.pc
  rw [← hbyte] at hopcode ⊢
  have hcycle := Machine.cycle_of_unimplemented h.pc (ofInt_toNat _).symm hopcode c.policy
  exact step_of_error hcycle

/-- A processor that has read an opcode passes over it with the read on record. -/
theorem skip_performs (h : c.machine.Shows chip) :
    let op := Debugger.skipOperation (chip.byte chip.pc)
      (.str (Instr.missingMnemonic (chip.byte chip.pc)))
    ∃ s c', skip c.state.pc op { c with machine := c.machine.fetched chip.pc } = .ok s c'
      ∧ c.Performs ⟨op, [chip.readCycle chip.pc], { chip with pc := chip.pc + 1 }⟩ s c' := by
  intro op
  have hpc : c.state.pc.int? = some (chip.pc.toNat : Int) := h.pc
  have hbyte := h.byte chip.pc
  have hplace : (Datum.int (((chip.pc.toNat : Int) + 1) % 65536)).int?
      = some ((chip.pc + 1).toNat : Int) := by
    rw [Datum.int?_int]
    exact congrArg some (advance_toNat chip.pc 1)
  refine ⟨_, _, skip_eq hpc rfl _, ?_⟩
  exact
    { operation := rfl
      initialPc := rfl
      cycles := congrArg (fun v => [BusCycle.read chip.pc v]) hbyte
      replays := if_pos rfl
      state := rfl
      shows := (h.quiet.setPc hplace).toShows
      policy := rfl }

end Cpu

namespace Debugger

/-! ## One instruction -/

/-- Execute one instruction; where a run would pass over an opcode, so does this. -/
def proceed : Action Debugger Snapshot := do
  match ← Action.attempt stepInstruction with
  | .ok s => return s
  | .error (.unimplemented opcode pc mnemonic) =>
      if (← get).trapPolicy = .skip then skipTrapped opcode pc mnemonic
      else throw (.unimplemented opcode pc mnemonic)
  | .error fault => throw fault

/-- Whether opcodes without an implementation are passed over. -/
def skips (d : Debugger) : Bool := d.trapPolicy = .skip

/-- What the next instruction comes to, given the numbers in the machine. -/
def outcome? (d : Debugger) (chip : Chip) : Option Chip.Outcome :=
  chip.outcome? d.cpu.policy d.skips

variable {d : Debugger} {chip : Chip} {s : Snapshot} {c c' : Cpu}

theorem proceed_of_ok (h : Cpu.step d.cpu = .ok s c) : proceed d = .ok s (d.stepped s c) := by
  have hattempt : Action.attempt stepInstruction d = .ok (.ok s) (d.stepped s c) := by
    rw [Action.attempt, stepInstruction_of_ok h]
  rw [proceed, bind_of_ok hattempt]
  rfl

section Trapped

variable {opcode : UInt8} {pc mnemonic : Datum}
  (h : Cpu.step d.cpu = .error (.unimplemented opcode pc mnemonic) c)

include h

theorem proceed_of_skip (hpolicy : d.trapPolicy = .skip)
    (hskip : Cpu.skip pc (skipOperation opcode mnemonic) c = .ok s c') :
    proceed d = .ok s (d.stepped s c') := by
  have hcpu : onCpu (Cpu.skip pc (skipOperation opcode mnemonic)) (d.faulted c)
      = .ok s (d.faulted c') := onCpu_of_ok hskip
  have hkept : (d.faulted c).trapPolicy = .skip := hpolicy
  rw [proceed, bind_of_ok (attempt_of_error h)]
  dsimp only
  rw [get_bind, if_pos hkept, skipTrapped, bind_of_ok hcpu]
  rfl

theorem proceed_of_trap (hpolicy : d.trapPolicy ≠ .skip) :
    proceed d = .error (.unimplemented opcode pc mnemonic) (d.faulted c) := by
  have hkept : (d.faulted c).trapPolicy ≠ .skip := hpolicy
  rw [proceed, bind_of_ok (attempt_of_error h)]
  dsimp only
  rw [get_bind, if_neg hkept]
  rfl

end Trapped

/-- An instruction that comes to something is executed, and a round of a run does the same; both do
so under every debugger whose processor steps alike. -/
theorem proceed_of_outcome (h : d.cpu.machine.Shows chip) {o : Chip.Outcome}
    (ho : d.outcome? chip = some o) :
    ∃ s c, d.cpu.Performs o s c
      ∧ ∀ d' : Debugger, Cpu.step d'.cpu = Cpu.step d.cpu → d'.trapPolicy = d.trapPolicy →
        proceed d' = .ok s (d'.stepped s c)
          ∧ ∃ journal, round d' = .ok (.done s) ((d'.stepped s c).noting journal) := by
  rw [outcome?, Chip.outcome?] at ho
  cases hi : Instr.ofOpcode? (chip.byte chip.pc) with
  | some i =>
    simp only [hi, Option.some.injEq] at ho
    subst ho
    obtain ⟨s, c, hstep, hperforms⟩ := Cpu.step_performs h hi
    refine ⟨s, c, hperforms, ?_⟩
    intro d' hd' _
    rw [hstep] at hd'
    exact ⟨proceed_of_ok hd', d'.journal, round_of_ok hd'⟩
  | none =>
    have hmissing := (Instr.unimplemented_iff _).2 hi
    by_cases hskips : d.skips = true
    · simp only [hi, hskips, if_true, Option.some.injEq] at ho
      subst ho
      have hpolicy : d.trapPolicy = .skip := of_decide_eq_true hskips
      have hstep := Cpu.step_of_missing h hmissing
      obtain ⟨s, c, hskip, hperforms⟩ := Cpu.skip_performs h
      refine ⟨s, c, hperforms, ?_⟩
      intro d' hd' hpolicy'
      rw [hstep] at hd'
      rw [hpolicy] at hpolicy'
      exact ⟨proceed_of_skip hd' hpolicy' hskip, round_skip hpolicy' hd' hskip⟩
    · simp [hi, hskips] at ho

/-- An instruction that comes to nothing faults, with its opcode read and nothing else done. -/
theorem proceed_of_stuck (h : d.cpu.machine.Shows chip) (hstuck : d.outcome? chip = none) :
    let fault := trapFault (chip.byte chip.pc) d.cpu.state.pc
    let stopped := d.faulted { d.cpu with machine := d.cpu.machine.fetched chip.pc }
    proceed d = .error fault stopped
      ∧ (d.trapPolicy = .halt →
        ∃ journal, round d = .ok (.trapped fault) (stopped.noting journal))
      ∧ (d.trapPolicy = .raise → round d = .error fault stopped) := by
  intro fault stopped
  obtain ⟨hskips, hmissing⟩ := Chip.outcome?_eq_none_iff.1 hstuck
  have hstep := Cpu.step_of_missing h hmissing
  refine ⟨proceed_of_trap hstep (of_decide_eq_false hskips), ?_, ?_⟩
  · intro hpolicy
    exact round_halt hpolicy hstep
  · intro hpolicy
    exact round_raise hpolicy hstep

/-! ## Trajectories -/

/-- The debugger after the next instruction, or as its fault leaves it. -/
def next (d : Debugger) : Debugger := proceed.final d

/-- The snapshot of the next instruction, if it is executed. -/
def executed (d : Debugger) : Option Snapshot := proceed.value? d

/-- The debugger after a number of instructions. -/
def after (d : Debugger) (n : Nat) : Debugger := next^[n] d

/-- The snapshots of a number of instructions, as far as they are executed. -/
def trajectory : Nat → Debugger → List Snapshot
  | 0, _ => []
  | n + 1, d => d.executed.toList ++ trajectory n d.next

theorem next_of_ok {d' : Debugger} (h : proceed d = .ok s d') : d.next = d' := final_of_ok h

theorem next_of_error {fault : Fault} {d' : Debugger} (h : proceed d = .error fault d') :
    d.next = d' := final_of_error h

theorem executed_of_ok {d' : Debugger} (h : proceed d = .ok s d') : d.executed = some s :=
  value?_of_ok h

theorem executed_of_error {fault : Fault} {d' : Debugger} (h : proceed d = .error fault d') :
    d.executed = none := value?_of_error h

theorem after_succ (d : Debugger) (n : Nat) : d.after (n + 1) = (d.after n).next :=
  Function.iterate_succ_apply' next n d

theorem after_add (d : Debugger) (n k : Nat) : d.after (n + k) = (d.after n).after k := by
  rw [after, Nat.add_comm, Function.iterate_add_apply]
  rfl

theorem trajectory_add (d : Debugger) (n k : Nat) :
    trajectory (n + k) d = trajectory n d ++ trajectory k (d.after n) := by
  induction n generalizing d with
  | zero => rw [Nat.zero_add]; rfl
  | succ n ih =>
    rw [Nat.succ_add, trajectory, ih d.next, trajectory, List.append_assoc]
    rfl

theorem trajectory_succ (d : Debugger) (n : Nat) :
    trajectory (n + 1) d = trajectory n d ++ (d.after n).executed.toList := by
  rw [trajectory_add]
  exact congrArg (trajectory n d ++ ·) (List.append_nil _)

/-- A debugger with the same settings. -/
structure Resembles (d d' : Debugger) : Prop where
  policy : d'.cpu.policy = d.cpu.policy
  trapPolicy : d'.trapPolicy = d.trapPolicy
  capacity : d'.capacity = d.capacity
  breakpoints : d'.breakpoints = d.breakpoints

/-- The next instruction is executed, or all that happens is a read of its opcode. -/
theorem next_cases (h : d.cpu.machine.Shows chip) :
    (∃ o s c, d.outcome? chip = some o ∧ d.cpu.Performs o s c ∧ d.executed = some s
        ∧ d.next = d.stepped s c)
      ∨ d.outcome? chip = none ∧ d.executed = none
        ∧ d.next = d.faulted { d.cpu with machine := d.cpu.machine.fetched chip.pc } := by
  cases ho : d.outcome? chip with
  | some o =>
    obtain ⟨s, c, hperforms, hproceeds⟩ := proceed_of_outcome h ho
    obtain ⟨hproceed, -⟩ := hproceeds d rfl rfl
    exact .inl ⟨o, s, c, rfl, hperforms, executed_of_ok hproceed, next_of_ok hproceed⟩
  | none =>
    obtain ⟨hproceed, -⟩ := proceed_of_stuck h ho
    exact .inr ⟨rfl, executed_of_error hproceed, next_of_error hproceed⟩

theorem next_ready (h : d.cpu.machine.Ready) :
    d.next.cpu.machine.Ready ∧ d.Resembles d.next := by
  rcases next_cases h.shows with ⟨o, s, c, -, hperforms, -, hnext⟩ | ⟨-, -, hnext⟩
  · rw [hnext]
    exact ⟨hperforms.shows.ready, hperforms.policy, rfl, rfl, rfl⟩
  · rw [hnext]
    exact ⟨h.of_state rfl, rfl, rfl, rfl, rfl⟩

/-- Along a trajectory the machine stays ready, and the settings stay as they are. -/
theorem after_ready (h : d.cpu.machine.Ready) (n : Nat) :
    (d.after n).cpu.machine.Ready ∧ d.Resembles (d.after n) := by
  induction n with
  | zero => exact ⟨h, rfl, rfl, rfl, rfl⟩
  | succ n ih =>
    obtain ⟨hn, hsame⟩ := ih
    obtain ⟨hnext, hstep⟩ := next_ready hn
    rw [after_succ]
    refine ⟨hnext, ?_, ?_, ?_, ?_⟩
    · exact hstep.policy.trans hsame.policy
    · exact hstep.trapPolicy.trans hsame.trapPolicy
    · exact hstep.capacity.trans hsame.capacity
    · exact hstep.breakpoints.trans hsame.breakpoints

end Debugger

end Emu8080
