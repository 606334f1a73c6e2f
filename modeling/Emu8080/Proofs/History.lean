/-
# Emu8080.Proofs.History -- what a debugger remembers is its trajectory

A host drives a debugger with single instructions and with runs.  Whatever bounds
and observers the runs are given, whatever stops them and whatever faults, the
debugger goes along one trajectory: after any number of calls it has executed the
first so many instructions of it, and its history has grown by their snapshots.

Calls leave their traces beside that: a read of an opcode that trapped stays in
the log, the journal grows, and the state to compare with is taken anew.  Two
debuggers that differ in these alone are twins (`Twin`), and what comes next is
the same for both.
-/
import Emu8080.Proofs.Trajectory

namespace Emu8080

set_option autoImplicit false

open Emu8080.Action (final final_of_ok final_of_error get_bind)

/-! ## Twins -/

/-- The log is no part of what a machine shows. -/
theorem Machine.Shows.of_quiet {m m' : Machine} {chip : Chip} (h : m.Shows chip)
    (hquiet : m'.quiet = m.quiet) : m'.Shows chip := by
  have hshows : m'.quiet.Shows chip := by
    rw [hquiet]
    exact h.quiet.toShows
  exact { hshows with }

/-- The same processor with nothing in its log. -/
def Cpu.quiet (c : Cpu) : Cpu := { c with machine := c.machine.quiet }

/-- A step does not look at the log that it finds. -/
theorem Cpu.step_quiet (c : Cpu) : step c.quiet = step c := by
  rw [step_eq, step_eq, Machine.cycle_quiet c.policy c.machine]
  rfl

namespace Debugger

/-- A debugger that differs in its log, its journal and the state it compares with at most. -/
structure Twin (d d' : Debugger) : Prop where
  cpu : d'.cpu.quiet = d.cpu.quiet
  trapPolicy : d'.trapPolicy = d.trapPolicy
  capacity : d'.capacity = d.capacity
  history : d'.history = d.history

variable {d d' d'' : Debugger} {chip : Chip} {s : Snapshot} {c : Cpu} {n : Nat}

theorem Twin.refl (d : Debugger) : d.Twin d := ⟨rfl, rfl, rfl, rfl⟩

theorem Twin.trans (h : d.Twin d') (h' : d'.Twin d'') : d.Twin d'' where
  cpu := h'.cpu.trans h.cpu
  trapPolicy := h'.trapPolicy.trans h.trapPolicy
  capacity := h'.capacity.trans h.capacity
  history := h'.history.trans h.history

theorem twin_noting (d : Debugger) (journal : Array Notice) : d.Twin (d.noting journal) :=
  ⟨rfl, rfl, rfl, rfl⟩

theorem Twin.stepped (h : d.Twin d') (s : Snapshot) (c : Cpu) :
    (d.stepped s c).Twin (d'.stepped s c) where
  cpu := rfl
  trapPolicy := h.trapPolicy
  capacity := h.capacity
  history := by
    show remember d'.capacity d'.history s = remember d.capacity d.history s
    rw [h.capacity, h.history]

theorem Twin.step (h : d.Twin d') : Cpu.step d'.cpu = Cpu.step d.cpu := by
  rw [← Cpu.step_quiet, h.cpu, Cpu.step_quiet]

/-- Looking at an opcode and going no further leaves a twin. -/
theorem twin_fetched (d : Debugger) (a : UInt16) :
    d.Twin (d.faulted { d.cpu with machine := d.cpu.machine.fetched a }) :=
  ⟨rfl, rfl, rfl, rfl⟩

theorem Twin.shows (h : d.Twin d') (hshows : d.cpu.machine.Shows chip) :
    d'.cpu.machine.Shows chip :=
  Machine.Shows.of_quiet hshows (congrArg Cpu.machine h.cpu)

theorem Twin.policy (h : d.Twin d') : d'.cpu.policy = d.cpu.policy := by
  have hquiet : d'.cpu.quiet.policy = d.cpu.quiet.policy := congrArg Cpu.policy h.cpu
  exact hquiet

theorem Twin.memory (h : d.Twin d') : d'.cpu.memory.quiet = d.cpu.memory.quiet := by
  have hquiet : d'.cpu.quiet.memory = d.cpu.quiet.memory := congrArg Cpu.memory h.cpu
  exact hquiet

theorem Twin.outcome? (h : d.Twin d') (chip : Chip) : d'.outcome? chip = d.outcome? chip := by
  rw [Debugger.outcome?, Debugger.outcome?, skips, skips, h.policy, h.trapPolicy]

/-! ## Along the trajectory -/

/-- The debugger `d'` has come `n` instructions along the trajectory of `d`. -/
structure Advances (d : Debugger) (n : Nat) (d' : Debugger) : Prop where
  twin : (d.after n).Twin d'
  executed : (trajectory n d).length = n

theorem Advances.start (d : Debugger) : d.Advances 0 d := ⟨Twin.refl d, rfl⟩

theorem Advances.twins (h : d.Advances n d') (h' : d'.Twin d'') : d.Advances n d'' :=
  ⟨h.twin.trans h', h.executed⟩

/-- One more instruction. -/
theorem Advances.next (h : d.Advances n d')
    (hproceed : proceed (d.after n) = .ok s ((d.after n).stepped s c)) :
    d.Advances (n + 1) (d'.stepped s c) where
  twin := by
    rw [after_succ, next_of_ok hproceed]
    exact h.twin.stepped s c
  executed := by
    rw [trajectory_succ, executed_of_ok hproceed, List.length_append, h.executed]
    rfl

/-- A single instruction under control is the next of the trajectory, or traps. -/
theorem Advances.step (hready : d.cpu.machine.Ready) (h : d.Advances n d') :
    ∃ k, d.Advances k (stepInstruction.final d') := by
  have hshows := (after_ready hready n).1.shows
  let chip := (d.after n).cpu.machine.chip
  cases hi : Instr.ofOpcode? (chip.byte chip.pc) with
  | some i =>
    obtain ⟨s, c, hstep, -⟩ := Cpu.step_performs hshows hi
    refine ⟨n + 1, ?_⟩
    rw [final_of_ok (stepInstruction_of_ok (h.twin.step.trans hstep))]
    exact h.next (proceed_of_ok hstep)
  | none =>
    have hmissing := (Instr.unimplemented_iff _).2 hi
    have hstep := Cpu.step_of_missing (h.twin.shows hshows) hmissing
    refine ⟨n, ?_⟩
    rw [final_of_error (stepInstruction_of_error hstep)]
    exact h.twins (twin_fetched d' _)

/-- What a round comes to that begins on the trajectory. -/
inductive RoundAdvances (d : Debugger) (n : Nat) (d' : Debugger) : Prop
  | done (s : Snapshot) (d'' : Debugger) (hround : round d' = .ok (.done s) d'')
      (h : d.Advances (n + 1) d'')
  | trapped (fault : Fault) (d'' : Debugger) (hround : round d' = .ok (.trapped fault) d'')
      (h : d.Advances n d'')
  | raised (fault : Fault) (d'' : Debugger) (hround : round d' = .error fault d'')
      (h : d.Advances n d'')

theorem Advances.round (hready : d.cpu.machine.Ready) (h : d.Advances n d') :
    RoundAdvances d n d' := by
  have hshows := (after_ready hready n).1.shows
  cases ho : (d.after n).outcome? (d.after n).cpu.machine.chip with
  | some o =>
    obtain ⟨s, c, -, hproceeds⟩ := proceed_of_outcome hshows ho
    obtain ⟨hproceed, -⟩ := hproceeds (d.after n) rfl rfl
    obtain ⟨-, journal, hround⟩ := hproceeds d' h.twin.step h.twin.trapPolicy
    exact .done s _ hround ((h.next hproceed).twins (twin_noting _ journal))
  | none =>
    have hstuck := (h.twin.outcome? _).trans ho
    obtain ⟨-, hhalt, hraise⟩ := proceed_of_stuck (h.twin.shows hshows) hstuck
    have hstays := h.twins (twin_fetched d' (d.after n).cpu.machine.chip.pc)
    cases hpolicy : d'.trapPolicy with
    | halt =>
      obtain ⟨journal, hround⟩ := hhalt hpolicy
      exact .trapped _ _ hround (hstays.twins (twin_noting _ journal))
    | raise => exact .raised _ _ (hraise hpolicy) hstays
    | skip =>
      obtain ⟨hskips, -⟩ := Chip.outcome?_eq_none_iff.1 hstuck
      exact absurd hpolicy (of_decide_eq_false hskips)

/-- A run goes along the trajectory, whatever it comes to. -/
theorem Advances.runFrom {σ : Type} (observer : Observer σ) (limit : Option Int)
    (hready : d.cpu.machine.Ready) (h : d.Advances n d') (fuel steps : Nat) (seen : σ) :
    ∃ k, d.Advances k ((Debugger.runFrom observer limit fuel steps seen).final d') := by
  induction fuel generalizing n d' steps seen with
  | zero => exact ⟨n, h⟩
  | succ fuel ih =>
    cases hends : endsAt limit steps d' with
    | true =>
      obtain ⟨result, journal, hrun, -⟩ := runFrom_of_ends observer seen hends fuel
      rw [final_of_ok hrun]
      exact ⟨n, h.twins (twin_noting d' journal)⟩
    | false =>
      cases h.round hready with
      | trapped fault d'' hround h'' =>
        rw [final_of_ok (runFrom_of_trapped hends hround fuel)]
        exact ⟨n, h''⟩
      | raised fault d'' hround h'' =>
        rw [final_of_error (runFrom_of_error hends hround fuel)]
        exact ⟨n, h''⟩
      | done s d'' hround h'' =>
        cases hmeets : Breakpoint.anyMeets d''.before s d''.breakpoints with
        | error fault =>
          rw [final_of_error (runFrom_of_unreadable hends hround hmeets fuel)]
          exact ⟨n + 1, h''⟩
        | ok met =>
          cases hstop : met || (observer.onStep seen s).2 with
          | true =>
            obtain ⟨result, journal, hrun, -⟩ := runFrom_of_stopped hends hround hmeets hstop fuel
            rw [final_of_ok hrun]
            exact ⟨n + 1, h''.twins (twin_noting d'' journal)⟩
          | false =>
            rw [final, runFrom_of_going hends hround hmeets hstop]
            exact ih h'' (steps + 1) (observer.onStep seen s).1

/-! ## Calls -/

/-- What a host asks of a debugger: one instruction, or a run. -/
inductive Drive
  | step
  | run {σ : Type} (r : RunCall σ)

/-- The debugger after a call, also if it faults. -/
def drive (d : Debugger) : Drive → Debugger
  | .step => stepInstruction.final d
  | .run r => r.perform.final d

theorem Advances.drive (hready : d.cpu.machine.Ready) (h : d.Advances n d') (call : Drive) :
    ∃ k, d.Advances k (d'.drive call) := by
  cases call with
  | step => exact h.step hready
  | run r =>
    rw [Debugger.drive]
    cases hbound : d'.boundFor r.bound with
    | error fault =>
      have hrun : r.perform d' = .error fault d' := by
        rw [RunCall.perform, run, get_bind, hbound]
        rfl
      rw [final_of_error hrun]
      exact ⟨n, h⟩
    | ok limit =>
      rw [final, RunCall.perform, run_of_bound hbound]
      exact h.runFrom r.observer limit hready (r.fuel + 1) 0 r.start

/-- Any calls lead along the trajectory. -/
theorem Advances.drives (hready : d.cpu.machine.Ready) (h : d.Advances n d') (calls : List Drive) :
    ∃ k, d.Advances k (calls.foldl Debugger.drive d') := by
  induction calls generalizing n d' with
  | nil => exact ⟨n, h⟩
  | cons call calls ih =>
    obtain ⟨k, hcall⟩ := h.drive hready call
    exact ih hcall

/-- An unbounded history grows by the snapshots of the trajectory. -/
theorem history_after (hready : d.cpu.machine.Ready) (hcapacity : d.capacity = none) (n : Nat) :
    (d.after n).history.toList = d.history.toList ++ trajectory n d := by
  induction n with
  | zero => exact (List.append_nil _).symm
  | succ n ih =>
    obtain ⟨hn, hsame⟩ := after_ready hready n
    rw [trajectory_succ, after_succ, ← List.append_assoc, ← ih]
    rcases next_cases hn.shows with ⟨o, s, c, -, -, hexecuted, hnext⟩ | ⟨-, hexecuted, hnext⟩
    · have hunbounded : (d.after n).capacity = none := hsame.capacity.trans hcapacity
      rw [hexecuted, hnext]
      show (remember (d.after n).capacity (d.after n).history s).toList = _
      rw [hunbounded]
      exact Array.toList_push
    · rw [hexecuted, hnext]
      exact (List.append_nil _).symm

end Debugger

end Emu8080
