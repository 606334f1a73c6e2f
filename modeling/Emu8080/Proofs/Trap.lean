/-
# Emu8080.Proofs.Trap -- reaching an opcode without an implementation

A trap is found while decoding: the opcode has been read, and nothing else has
happened.  What is left is the same in the bare step, in the processor and under
a debugger: the machine as it was, with one read in its log.  So the next attempt
finds the same opcode and traps again, and a run that stops at traps can be
repeated as often as one likes.

All of this needs the program counter to be an integer, and nothing else of the
state.
-/
import Emu8080.Proofs.Encoding
import Emu8080.Proofs.Round

namespace Emu8080

set_option autoImplicit false

open Emu8080.Action (get_bind bind_of_ok bind_of_error)

/-- The fault at an opcode without an implementation. -/
def trapFault (opcode : UInt8) (pc : Datum) : Fault :=
  .unimplemented opcode pc (.str (Instr.missingMnemonic opcode))

theorem Fault.trap_of_int? {pc : Datum} {n : Int} (h : pc.int? = some n) (opcode : UInt8) :
    Fault.trap opcode pc (.str (Instr.missingMnemonic opcode)) = trapFault opcode pc := by
  cases pc with
  | int k => rfl
  | bool b => rfl
  | null | float x | str s | list items | map entries => exact nomatch h

namespace Machine

/-- The same machine with one read in its log. -/
def fetched (m : Machine) (a : UInt16) : Machine :=
  { m with memory := { m.memory with log := [.read a (m.memory.byteAt a)] } }

/-- Looking at a byte again changes nothing more. -/
theorem fetched_fetched (m : Machine) (a : UInt16) : (m.fetched a).fetched a = m.fetched a := rfl

variable {m : Machine} {a : UInt16}

/-- The cycle ends in a trap, with the opcode read and nothing else done. -/
theorem cycle_of_unimplemented {n : Int} (hpc : m.state.pc.int? = some n)
    (ha : a = UInt16.ofInt n) (hopcode : Instr.Unimplemented (m.memory.byteAt a))
    (policy : FlagPolicy) :
    cycle policy m = .error (trapFault (m.memory.byteAt a) m.state.pc) (m.fetched a) := by
  have hmemory := Memory.read_of_some hpc m.quiet.memory
  rw [← ha] at hmemory
  have hread : read m.state.pc m.quiet = .ok (m.memory.byteAt a) (m.fetched a) :=
    onMemory_of_ok hmemory
  have hfault : Operation.decode (m.memory.byteAt a) m.state.pc (m.fetched a).memory
      = .error (trapFault (m.memory.byteAt a) m.state.pc) (m.fetched a).memory := by
    have hnone := (Instr.unimplemented_iff _).1 hopcode
    simp only [Operation.decode, hnone, Fault.trap_of_int? hpc]
    rfl
  have hdecode : onMemory (Operation.decode (m.memory.byteAt a) m.state.pc) (m.fetched a)
      = .error (trapFault (m.memory.byteAt a) m.state.pc) (m.fetched a) :=
    onMemory_of_error hfault
  rw [cycle, bind_of_ok (takeLog_eq m), get_bind]
  exact (bind_of_ok hread _).trans (bind_of_error hdecode _)

end Machine

namespace Debugger

/-- A debugger that has looked at the opcode at an address and has gone no further.  Only the
state it compares with and its journal are left open. -/
structure Halted (d d' : Debugger) (a : UInt16) : Prop where
  cpu : d'.cpu = { d.cpu with machine := d.cpu.machine.fetched a }
  trapPolicy : d'.trapPolicy = d.trapPolicy
  limit : d'.limit = d.limit
  capacity : d'.capacity = d.capacity
  breakpoints : d'.breakpoints = d.breakpoints
  history : d'.history = d.history
  last : d'.last = d.last

variable {d d₁ d₂ : Debugger} {a : UInt16}

/-- Looking again is looking once. -/
theorem Halted.trans (h : d.Halted d₁ a) (h' : d₁.Halted d₂ a) : d.Halted d₂ a where
  cpu := by rw [h'.cpu, h.cpu, Machine.fetched_fetched]
  trapPolicy := h'.trapPolicy.trans h.trapPolicy
  limit := h'.limit.trans h.limit
  capacity := h'.capacity.trans h.capacity
  breakpoints := h'.breakpoints.trans h.breakpoints
  history := h'.history.trans h.history
  last := h'.last.trans h.last

theorem Halted.state (h : d.Halted d₁ a) : d₁.cpu.state = d.cpu.state := by
  rw [h.cpu]
  rfl

theorem Halted.byteAt (h : d.Halted d₁ a) : d₁.cpu.memory.byteAt = d.cpu.memory.byteAt := by
  rw [h.cpu]
  rfl

theorem Halted.boundFor (h : d.Halted d₁ a) (bound : Datum) :
    d₁.boundFor bound = d.boundFor bound := by
  cases bound with
  | null => rw [boundFor_null, boundFor_null, h.limit]
  | _ => rfl

/-- A run as a host asks for it: its bound, its observer, and the rounds it is given. -/
structure RunCall (σ : Type) where
  bound : Datum
  observer : Observer σ
  start : σ
  fuel : Nat

variable {σ : Type}

/-- Carry out a run. -/
def RunCall.perform (r : RunCall σ) : Action Debugger (Option (RunResult × σ)) :=
  Debugger.run (r.fuel + 1) r.bound r.observer r.start

/-- The run has no bound, or one that lets it execute an instruction. -/
def RunCall.Starts (r : RunCall σ) (d : Debugger) : Prop :=
  ∃ limit, d.boundFor r.bound = .ok limit ∧ ∀ n ∈ limit, 1 ≤ n

theorem endsAt_start {limit : Option Int} (h : ∀ n ∈ limit, 1 ≤ n) : endsAt limit 0 d = false := by
  rw [endsAt_zero]
  cases limit with
  | none => rfl
  | some n =>
    have hn : 1 ≤ n := h n rfl
    exact decide_eq_false (by omega)

section AtTrap

variable {n : Int}

/-- What a run that halts at a trap answers. -/
def trapResult (d : Debugger) (a : UInt16) : RunResult :=
  { reason := .trap, steps := 0, pc := d.cpu.state.pc,
    fault := some (trapFault (d.cpu.memory.byteAt a) d.cpu.state.pc) }

theorem step_of_unimplemented (hpc : d.cpu.state.pc.int? = some n) (ha : a = UInt16.ofInt n)
    (hopcode : Instr.Unimplemented (d.cpu.memory.byteAt a)) :
    Cpu.step d.cpu = .error (trapFault (d.cpu.memory.byteAt a) d.cpu.state.pc)
      { d.cpu with machine := d.cpu.machine.fetched a } :=
  Cpu.step_of_error (Machine.cycle_of_unimplemented hpc ha hopcode _)

theorem halted_faulted (d : Debugger) (a : UInt16) (journal : Array Notice) :
    d.Halted ((d.faulted { d.cpu with machine := d.cpu.machine.fetched a }).noting journal) a :=
  ⟨rfl, rfl, rfl, rfl, rfl, rfl, rfl⟩

/-- A run that starts at a trap halts there at once. -/
theorem run_halts (hpolicy : d.trapPolicy = .halt) (hpc : d.cpu.state.pc.int? = some n)
    (ha : a = UInt16.ofInt n) (hopcode : Instr.Unimplemented (d.cpu.memory.byteAt a))
    {r : RunCall σ} (hr : r.Starts d) :
    ∃ d', r.perform d = .ok (some (d.trapResult a, r.start)) d' ∧ d.Halted d' a := by
  obtain ⟨limit, hbound, hlimit⟩ := hr
  obtain ⟨journal, hround⟩ := round_halt hpolicy (step_of_unimplemented hpc ha hopcode)
  refine ⟨_, ?_, halted_faulted d a journal⟩
  rw [RunCall.perform, run_of_bound hbound, runFrom_of_trapped (endsAt_start hlimit) hround]
  rfl

/-- Runs can be repeated at a trap: each of them answers the same. -/
theorem runs_halt (hpolicy : d.trapPolicy = .halt) (hpc : d.cpu.state.pc.int? = some n)
    (ha : a = UInt16.ofInt n) (hopcode : Instr.Unimplemented (d.cpu.memory.byteAt a))
    (r : RunCall σ) (rest : List (RunCall σ)) (hr : ∀ r' ∈ r :: rest, r'.Starts d) :
    ∃ d', (r :: rest).mapM RunCall.perform d
        = .ok ((r :: rest).map fun r' => some (d.trapResult a, r'.start)) d'
      ∧ d.Halted d' a := by
  induction rest generalizing d r with
  | nil =>
    obtain ⟨d', hrun, hhalted⟩ := run_halts hpolicy hpc ha hopcode (hr r List.mem_cons_self)
    refine ⟨d', ?_, hhalted⟩
    rw [List.mapM_cons, bind_of_ok hrun]
    rfl
  | cons next rest ih =>
    obtain ⟨d₁, hrun, hhalted⟩ := run_halts hpolicy hpc ha hopcode (hr r List.mem_cons_self)
    have hstate := hhalted.state
    have hbyte := hhalted.byteAt
    have hresult : d₁.trapResult a = d.trapResult a := by
      rw [trapResult, trapResult, hstate, hbyte]
    have hrest : ∀ r' ∈ next :: rest, r'.Starts d₁ := by
      intro r' hr'
      obtain ⟨limit, hbound, hlimit⟩ := hr r' (List.mem_cons_of_mem r hr')
      exact ⟨limit, (hhalted.boundFor _).trans hbound, hlimit⟩
    have hpc₁ : d₁.cpu.state.pc.int? = some n := by
      rw [hstate]
      exact hpc
    have hopcode₁ : Instr.Unimplemented (d₁.cpu.memory.byteAt a) := by
      rw [hbyte]
      exact hopcode
    obtain ⟨d', hruns, hhalted'⟩ :=
      ih (hhalted.trapPolicy.trans hpolicy) hpc₁ hopcode₁ next hrest
    refine ⟨d', ?_, hhalted.trans hhalted'⟩
    rw [List.mapM_cons, bind_of_ok hrun, bind_of_ok hruns, hresult]
    rfl

/-- Under the policy that hands faults on, a run hands on the trap. -/
theorem run_raises (hpolicy : d.trapPolicy = .raise) (hpc : d.cpu.state.pc.int? = some n)
    (ha : a = UInt16.ofInt n) (hopcode : Instr.Unimplemented (d.cpu.memory.byteAt a))
    {r : RunCall σ} (hr : r.Starts d) :
    ∃ d', r.perform d = .error (trapFault (d.cpu.memory.byteAt a) d.cpu.state.pc) d'
      ∧ d.Halted d' a := by
  obtain ⟨limit, hbound, hlimit⟩ := hr
  have hround := round_raise hpolicy (step_of_unimplemented hpc ha hopcode)
  refine ⟨_, ?_, halted_faulted d a d.journal⟩
  rw [RunCall.perform, run_of_bound hbound, runFrom_of_error (endsAt_start hlimit) hround]
  rfl

end AtTrap

/-- With an opcode without an implementation at an integer program counter, and whatever values the
other fields and each of the five condition codes hold, every way to go on traps there and leaves
everything as it was but for one read in the log: the step of the machine, the cycle of the
processor, one instruction under a debugger, and the runs of a debugger that does not pass over
traps.  A debugger that halts at them can be run again and again and answers the same each time. -/
theorem trap_changes_nothing {m : Machine} {n : Int} (hpc : m.state.pc.int? = some n)
    (hopcode : Instr.Unimplemented (m.memory.byteAt (UInt16.ofInt n))) (policy : FlagPolicy) :
    let a := UInt16.ofInt n
    let fault := trapFault (m.memory.byteAt a) m.state.pc
    (m.state.bus = .memory → Machine.step policy m = .error fault (m.fetched a))
    ∧ (∀ count, Cpu.step ⟨m, policy, count⟩ = .error fault ⟨m.fetched a, policy, count⟩)
    ∧ ∀ d : Debugger, d.cpu.machine = m → d.cpu.policy = policy →
      (∃ d', d.stepInstruction = .error fault d' ∧ d.Halted d' a)
      ∧ (d.trapPolicy = .halt → ∀ (σ : Type) (r : RunCall σ) (rest : List (RunCall σ)),
          (∀ r' ∈ r :: rest, r'.Starts d) →
          ∃ d', (r :: rest).mapM RunCall.perform d
              = .ok ((r :: rest).map fun r' =>
                  some ({ reason := .trap, steps := 0, pc := m.state.pc, fault := some fault },
                    r'.start)) d'
            ∧ d.Halted d' a)
      ∧ (d.trapPolicy = .raise → ∀ (σ : Type) (r : RunCall σ), r.Starts d →
          ∃ d', r.perform d = .error fault d' ∧ d.Halted d' a) := by
  intro a fault
  have hcycle := Machine.cycle_of_unimplemented hpc rfl hopcode policy
  refine ⟨?_, ?_, ?_⟩
  · intro hbus
    rw [Machine.step_of_bus hbus]
    exact hcycle
  · intro count
    exact Cpu.step_of_error hcycle
  · rintro d rfl rfl
    refine ⟨?_, ?_, ?_⟩
    · have hstep := stepInstruction_of_error (step_of_unimplemented hpc rfl hopcode)
      exact ⟨_, hstep, halted_faulted d a d.journal⟩
    · intro hpolicy σ r rest hr
      exact runs_halt hpolicy hpc rfl hopcode r rest hr
    · intro hpolicy σ r hr
      exact run_raises hpolicy hpc rfl hopcode hr

/-- A halt instruction at the last address, under a program counter below zero and with no value in
the accumulator: the processor traps, and two runs answer the same. -/
theorem trap_below_zero :
    let m : Machine :=
      { state := { pc := .int (-1), a := .null }, memory := Memory.zero.store 0xFFFF 0x76 }
    let d : Debugger := { cpu := ⟨m, .clear, 7⟩, before := m.state }
    let r : RunCall Unit := { bound := .null, observer := .silent, start := (), fuel := 0 }
    Cpu.step d.cpu = .error (trapFault 0x76 (.int (-1))) ⟨m.fetched 0xFFFF, .clear, 7⟩
    ∧ ∃ d', [r, r].mapM RunCall.perform d
        = .ok (List.replicate 2 (some
            ({ reason := .trap, steps := 0, pc := .int (-1),
               fault := some (trapFault 0x76 (.int (-1))) }, ()))) d' := by
  intro m d r
  have hbyte : m.memory.byteAt (UInt16.ofInt (-1)) = 0x76 :=
    Memory.byteAt_store _ 0xFFFF 0xFFFF 0x76
  have hopcode : Instr.Unimplemented (m.memory.byteAt (UInt16.ofInt (-1))) := by
    rw [hbyte]
    decide
  have hstarts : r.Starts d := ⟨none, rfl, fun n hn => nomatch hn⟩
  obtain ⟨-, hcpu, hdebugger⟩ := trap_changes_nothing (m := m) (n := -1) rfl hopcode .clear
  rw [hbyte] at hcpu hdebugger
  obtain ⟨-, hhalt, -⟩ := hdebugger d rfl rfl
  obtain ⟨d', hruns, -⟩ := hhalt rfl Unit r [r] (by simp [hstarts])
  exact ⟨hcpu 7, d', hruns⟩

end Debugger

end Emu8080
