/-
# Emu8080.Proofs.Round -- what a round of a run can do

A round executes one instruction.  It is done with a snapshot, or the opcode has
no implementation and the trap policy decides: the run ends, the opcode is
passed over, or the fault goes to the caller.  There is one equation for each of
these, in terms of what the processor did; what is reported to the journal is
left open.
-/
import Emu8080.Debugger.Run
import Emu8080.Proofs.Cycle

namespace Emu8080.Debugger

set_option autoImplicit false

open Emu8080.Action (get_bind modify_bind demand_bind bind_of_ok bind_of_error)

variable {d : Debugger} {c : Cpu} {s : Snapshot} {fault : Fault}

theorem onCpu_of_ok {α : Type} {x : Action Cpu α} {a : α} (h : x d.cpu = .ok a c) :
    onCpu x d = .ok a { d with cpu := c } := by
  unfold onCpu
  exact Action.within_of_ok h

theorem onCpu_of_error {α : Type} {x : Action Cpu α} (h : x d.cpu = .error fault c) :
    onCpu x d = .error fault { d with cpu := c } := by
  unfold onCpu
  exact Action.within_of_error h

/-! ## One instruction -/

/-- The debugger after an instruction: the processor went on, the snapshot is kept. -/
def stepped (d : Debugger) (s : Snapshot) (c : Cpu) : Debugger :=
  { d with
    cpu := c
    before := d.cpu.state
    last := some s
    history := remember d.capacity d.history s }

/-- The debugger after a fault: nothing is kept but what the processor did. -/
def faulted (d : Debugger) (c : Cpu) : Debugger := { d with cpu := c, before := d.cpu.state }

/-- The same debugger with another journal. -/
def noting (d : Debugger) (journal : Array Notice) : Debugger := { d with journal }

theorem stepInstruction_of_ok (h : Cpu.step d.cpu = .ok s c) :
    stepInstruction d = .ok s (d.stepped s c) := by
  have hcpu : onCpu Cpu.step { d with before := d.cpu.state } = .ok s (d.faulted c) := onCpu_of_ok h
  rw [stepInstruction, modify_bind, bind_of_ok hcpu]
  rfl

theorem stepInstruction_of_error (h : Cpu.step d.cpu = .error fault c) :
    stepInstruction d = .error fault (d.faulted c) := by
  have hcpu : onCpu Cpu.step { d with before := d.cpu.state } = .error fault (d.faulted c) :=
    onCpu_of_error h
  rw [stepInstruction, modify_bind, bind_of_error hcpu]

/-! ## Rounds -/

theorem round_of_ok (h : Cpu.step d.cpu = .ok s c) : round d = .ok (.done s) (d.stepped s c) := by
  have hattempt : Action.attempt stepInstruction d = .ok (.ok s) (d.stepped s c) := by
    rw [Action.attempt, stepInstruction_of_ok h]
  rw [round, bind_of_ok hattempt]
  rfl

section Trapped

variable {opcode : UInt8} {pc mnemonic : Datum}

theorem attempt_of_error (h : Cpu.step d.cpu = .error fault c) :
    Action.attempt stepInstruction d = .ok (.error fault) (d.faulted c) := by
  rw [Action.attempt, stepInstruction_of_error h]

theorem round_halt (hpolicy : d.trapPolicy = .halt)
    (h : Cpu.step d.cpu = .error (.unimplemented opcode pc mnemonic) c) :
    ∃ journal, round d
      = .ok (.trapped (.unimplemented opcode pc mnemonic)) ((d.faulted c).noting journal) := by
  have hkept : (d.faulted c).trapPolicy = .halt := hpolicy
  rw [round, bind_of_ok (attempt_of_error h)]
  dsimp only
  rw [get_bind, hkept]
  exact ⟨_, rfl⟩

theorem round_raise (hpolicy : d.trapPolicy = .raise)
    (h : Cpu.step d.cpu = .error (.unimplemented opcode pc mnemonic) c) :
    round d = .error (.unimplemented opcode pc mnemonic) (d.faulted c) := by
  have hkept : (d.faulted c).trapPolicy = .raise := hpolicy
  rw [round, bind_of_ok (attempt_of_error h)]
  dsimp only
  rw [get_bind, hkept]
  rfl

theorem round_skip (hpolicy : d.trapPolicy = .skip)
    (h : Cpu.step d.cpu = .error (.unimplemented opcode pc mnemonic) c) {c' : Cpu}
    (hskip : Cpu.skip pc (skipOperation opcode mnemonic) c = .ok s c') :
    ∃ journal, round d = .ok (.done s) ((d.stepped s c').noting journal) := by
  have hkept : (d.faulted c).trapPolicy = .skip := hpolicy
  rw [round, bind_of_ok (attempt_of_error h)]
  dsimp only
  rw [get_bind, hkept]
  dsimp only
  rw [report, modify_bind]
  have hcpu : ∀ journal, onCpu (Cpu.skip pc (skipOperation opcode mnemonic))
      ((d.faulted c).noting journal) = .ok s ((d.faulted c').noting journal) :=
    fun journal => onCpu_of_ok hskip
  have hpassed : ∀ journal, skipTrapped opcode pc mnemonic ((d.faulted c).noting journal)
      = .ok s ((d.stepped s c').noting journal) := by
    intro journal
    rw [skipTrapped, bind_of_ok (hcpu journal)]
    rfl
  exact ⟨_, bind_of_ok (hpassed _) _⟩

end Trapped

/-! ## Runs -/

section Run

variable {σ : Type} {observer : Observer σ} {limit : Option Int} {steps : Nat} {seen : σ}
  {d' : Debugger}

/-- Whether a run that has executed `steps` instructions stops before the next one. -/
def endsAt (limit : Option Int) (steps : Nat) (d : Debugger) : Bool :=
  (steps ≠ 0 && d.breakpoints.any (·.standsAt d.cpu.state.pc)) || reached limit steps

theorem endsAt_zero (limit : Option Int) (d : Debugger) : endsAt limit 0 d = reached limit 0 := by
  rw [endsAt, decide_eq_false (by simp), Bool.false_and, Bool.false_or]

/-- A run goes by its bound, once that is known. -/
theorem run_of_bound {bound : Datum} (hbound : d.boundFor bound = .ok limit) (fuel : Nat) :
    run fuel bound observer seen d = runFrom observer limit fuel 0 seen d := by
  rw [run, get_bind, demand_bind hbound]

/-- A breakpoint at the program counter ends a run that has executed something. -/
theorem runFrom_of_standing (observer : Observer σ) (limit : Option Int) (seen : σ)
    (h : (steps ≠ 0 && d.breakpoints.any (·.standsAt d.cpu.state.pc)) = true) (fuel : Nat) :
    ∃ journal, runFrom observer limit (fuel + 1) steps seen d
      = .ok (some ({ reason := .breakpoint, steps, pc := d.cpu.state.pc }, seen))
          (d.noting journal) := by
  rw [runFrom, get_bind, if_pos h]
  exact ⟨_, rfl⟩

/-- The bound ends a run where no breakpoint does. -/
theorem runFrom_of_reached (observer : Observer σ) (seen : σ)
    (hstands : ¬ (steps ≠ 0 && d.breakpoints.any (·.standsAt d.cpu.state.pc)) = true)
    (h : reached limit steps = true) (fuel : Nat) :
    runFrom observer limit (fuel + 1) steps seen d
      = .ok (some ({ reason := .maxSteps, steps, pc := d.cpu.state.pc }, seen)) d := by
  rw [runFrom, get_bind, if_neg hstands, if_pos h]
  rfl

/-- A run that stops here answers with the instructions it has executed. -/
theorem runFrom_of_ends (observer : Observer σ) (seen : σ) (h : endsAt limit steps d = true)
    (fuel : Nat) :
    ∃ result journal, runFrom observer limit (fuel + 1) steps seen d
        = .ok (some (result, seen)) (d.noting journal) ∧ result.steps = steps := by
  by_cases hstands : (steps ≠ 0 && d.breakpoints.any (·.standsAt d.cpu.state.pc)) = true
  · obtain ⟨journal, hrun⟩ := runFrom_of_standing observer limit seen hstands fuel
    exact ⟨_, journal, hrun, rfl⟩
  · have hreached : reached limit steps = true := by
      rw [endsAt, Bool.eq_false_iff.2 hstands, Bool.false_or] at h
      exact h
    exact ⟨_, d.journal, runFrom_of_reached observer seen hstands hreached fuel, rfl⟩

theorem endsAt_eq_false (h : endsAt limit steps d = false) :
    ¬ (steps ≠ 0 && d.breakpoints.any (·.standsAt d.cpu.state.pc)) = true
      ∧ ¬ reached limit steps = true := by
  rw [endsAt, Bool.or_eq_false_iff] at h
  exact ⟨Bool.eq_false_iff.1 h.1, Bool.eq_false_iff.1 h.2⟩

/-- A round that traps is the last one. -/
theorem runFrom_of_trapped (h : endsAt limit steps d = false)
    (hround : round d = .ok (.trapped fault) d') (fuel : Nat) :
    runFrom observer limit (fuel + 1) steps seen d
      = .ok (some ({ reason := .trap, steps, pc := d'.cpu.state.pc, fault := some fault }, seen))
          d' := by
  obtain ⟨hstands, hreached⟩ := endsAt_eq_false h
  rw [runFrom, get_bind]
  dsimp only
  rw [if_neg hstands, if_neg hreached, bind_of_ok hround]
  rfl

theorem runFrom_of_error (h : endsAt limit steps d = false) (hround : round d = .error fault d')
    (fuel : Nat) : runFrom observer limit (fuel + 1) steps seen d = .error fault d' := by
  obtain ⟨hstands, hreached⟩ := endsAt_eq_false h
  rw [runFrom, get_bind]
  dsimp only
  rw [if_neg hstands, if_neg hreached, bind_of_error hround]

section Done

variable (h : endsAt limit steps d = false) (hround : round d = .ok (.done s) d')

include h hround

/-- What follows a round is up to the breakpoints and the observer. -/
theorem runFrom_of_done (fuel : Nat) :
    runFrom observer limit (fuel + 1) steps seen d
      = (Action.demand (Breakpoint.anyMeets d'.before s d'.breakpoints) >>= fun met => do
          if met then
            reportHit s.state.pc
            return some (← finish .breakpoint (steps + 1) none, (observer.onStep seen s).1)
          else if (observer.onStep seen s).2 then
            return some (← finish .stopped (steps + 1) none, (observer.onStep seen s).1)
          else runFrom observer limit fuel (steps + 1) (observer.onStep seen s).1) d' := by
  obtain ⟨hstands, hreached⟩ := endsAt_eq_false h
  rw [runFrom, get_bind]
  dsimp only
  rw [if_neg hstands, if_neg hreached, bind_of_ok hround]
  rfl

/-- A breakpoint that a round meets ends the run after it. -/
theorem runFrom_of_met (hmeets : Breakpoint.anyMeets d'.before s d'.breakpoints = .ok true)
    (fuel : Nat) :
    ∃ journal, runFrom observer limit (fuel + 1) steps seen d
      = .ok (some ({ reason := .breakpoint, steps := steps + 1, pc := d'.cpu.state.pc },
          (observer.onStep seen s).1)) (d'.noting journal) := by
  rw [runFrom_of_done h hround, demand_bind hmeets]
  exact ⟨_, rfl⟩

/-- The observer ends the run after a round that meets no breakpoint. -/
theorem runFrom_of_asked (hmeets : Breakpoint.anyMeets d'.before s d'.breakpoints = .ok false)
    (hasks : (observer.onStep seen s).2 = true) (fuel : Nat) :
    runFrom observer limit (fuel + 1) steps seen d
      = .ok (some ({ reason := .stopped, steps := steps + 1, pc := d'.cpu.state.pc },
          (observer.onStep seen s).1)) d' := by
  rw [runFrom_of_done h hround, demand_bind hmeets, if_neg Bool.false_ne_true, if_pos hasks]
  rfl

/-- A breakpoint that cannot be looked at ends the run with its fault. -/
theorem runFrom_of_unreadable
    (hmeets : Breakpoint.anyMeets d'.before s d'.breakpoints = .error fault) (fuel : Nat) :
    runFrom observer limit (fuel + 1) steps seen d = .error fault d' := by
  rw [runFrom_of_done h hround, hmeets]
  rfl

variable {met : Bool} (hmeets : Breakpoint.anyMeets d'.before s d'.breakpoints = .ok met)

include hmeets

/-- A round is the last one if a breakpoint is met after it, or the observer asks for the end. -/
theorem runFrom_of_stopped (hstop : (met || (observer.onStep seen s).2) = true) (fuel : Nat) :
    ∃ result journal, runFrom observer limit (fuel + 1) steps seen d
        = .ok (some (result, (observer.onStep seen s).1)) (d'.noting journal)
      ∧ result.steps = steps + 1 := by
  cases met with
  | true =>
    obtain ⟨journal, hrun⟩ := runFrom_of_met h hround hmeets fuel
    exact ⟨_, journal, hrun, rfl⟩
  | false =>
    rw [Bool.false_or] at hstop
    exact ⟨_, d'.journal, runFrom_of_asked h hround hmeets hstop fuel, rfl⟩

/-- Else the run goes on where the round left the debugger. -/
theorem runFrom_of_going (hstop : (met || (observer.onStep seen s).2) = false) (fuel : Nat) :
    runFrom observer limit (fuel + 1) steps seen d
      = runFrom observer limit fuel (steps + 1) (observer.onStep seen s).1 d' := by
  obtain ⟨rfl, hgoes⟩ := Bool.or_eq_false_iff.1 hstop
  rw [runFrom_of_done h hround, demand_bind hmeets, if_neg Bool.false_ne_true,
    if_neg (Bool.eq_false_iff.1 hgoes)]

end Done

end Run

end Emu8080.Debugger
