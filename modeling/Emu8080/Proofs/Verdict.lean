/-
# Emu8080.Proofs.Verdict -- what a round means for its run

After a round a run answers, faults or goes on.  `verdict` says which, together
with the debugger that is left, and a run of any length is nothing but verdicts
in a row (`runFrom_succ`).  What holds of all runs can so be proved of one
verdict, and then by induction on the rounds.

The verdict has two parts: what is looked at before an instruction, and what is
made of the instruction (`settle`).
-/
import Emu8080.Proofs.Round

namespace Emu8080.Debugger

set_option autoImplicit false

open Emu8080.Action (get_bind demand_bind bind_of_ok bind_of_error)

/-- What a round means for its run. -/
inductive Verdict (σ : Type)
  | answers (result : RunResult) (seen : σ) (d : Debugger)
  | faults (fault : Fault) (d : Debugger)
  | goes (seen : σ) (d : Debugger)

variable {σ : Type} {observer : Observer σ} {limit : Option Int} {fuel steps : Nat} {seen : σ}
  {d : Debugger}

/-- What a run comes to by a verdict, and by `rest` if it goes on. -/
def Verdict.resolve (rest : σ → Action Debugger (Option (RunResult × σ))) :
    Verdict σ → EStateM.Result Fault Debugger (Option (RunResult × σ))
  | .answers result seen d => .ok (some (result, seen)) d
  | .faults fault d => .error fault d
  | .goes seen d => rest seen d

/-- The same debugger, with a breakpoint reported. -/
def hit (d : Debugger) (pc : Datum) : Debugger := (reportHit pc).final d

/-- A breakpoint at the program counter ends a run that has executed `steps` instructions. -/
abbrev stands (steps : Nat) (d : Debugger) : Bool :=
  steps ≠ 0 && d.breakpoints.any (·.standsAt d.cpu.state.pc)

/-- The verdict on an instruction that a run has executed. -/
def settle (observer : Observer σ) (steps : Nat) (seen : σ) :
    EStateM.Result Fault Debugger Round → Verdict σ
  | .error fault d => .faults fault d
  | .ok (.trapped fault) d =>
      .answers { reason := .trap, steps, pc := d.cpu.state.pc, fault := some fault } seen d
  | .ok (.done s) d =>
      let asked := observer.onStep seen s
      match Breakpoint.anyMeets d.before s d.breakpoints with
      | .error fault => .faults fault d
      | .ok true =>
          .answers { reason := .breakpoint, steps := steps + 1, pc := d.cpu.state.pc } asked.1
            (d.hit s.state.pc)
      | .ok false =>
          if asked.2 then
            .answers { reason := .stopped, steps := steps + 1, pc := d.cpu.state.pc } asked.1 d
          else .goes asked.1 d

/-- The verdicts on an instruction, with what each of them is based on. -/
inductive Settles (observer : Observer σ) (steps : Nat) (seen : σ) :
    EStateM.Result Fault Debugger Round → Verdict σ → Prop
  | faulted (fault : Fault) (d : Debugger) :
      Settles observer steps seen (.error fault d) (.faults fault d)
  | trapped (fault : Fault) (d : Debugger) :
      Settles observer steps seen (.ok (.trapped fault) d)
        (.answers { reason := .trap, steps, pc := d.cpu.state.pc, fault := some fault } seen d)
  | unreadable (s : Snapshot) (fault : Fault) (d : Debugger)
      (hmeets : Breakpoint.anyMeets d.before s d.breakpoints = .error fault) :
      Settles observer steps seen (.ok (.done s) d) (.faults fault d)
  | met (s : Snapshot) (d : Debugger)
      (hmeets : Breakpoint.anyMeets d.before s d.breakpoints = .ok true) :
      Settles observer steps seen (.ok (.done s) d)
        (.answers { reason := .breakpoint, steps := steps + 1, pc := d.cpu.state.pc }
          (observer.onStep seen s).1 (d.hit s.state.pc))
  | asked (s : Snapshot) (d : Debugger)
      (hmeets : Breakpoint.anyMeets d.before s d.breakpoints = .ok false)
      (hasks : (observer.onStep seen s).2 = true) :
      Settles observer steps seen (.ok (.done s) d)
        (.answers { reason := .stopped, steps := steps + 1, pc := d.cpu.state.pc }
          (observer.onStep seen s).1 d)
  | goes (s : Snapshot) (d : Debugger)
      (hmeets : Breakpoint.anyMeets d.before s d.breakpoints = .ok false)
      (hasks : (observer.onStep seen s).2 = false) :
      Settles observer steps seen (.ok (.done s) d) (.goes (observer.onStep seen s).1 d)

theorem settles (executed : EStateM.Result Fault Debugger Round) :
    Settles observer steps seen executed (settle observer steps seen executed) := by
  cases executed with
  | error fault d => exact .faulted fault d
  | ok r d =>
    cases r with
    | trapped fault => exact .trapped fault d
    | done s =>
      rw [settle]
      cases hmeets : Breakpoint.anyMeets d.before s d.breakpoints with
      | error fault => exact .unreadable s fault d hmeets
      | ok met =>
        cases met with
        | true => exact .met s d hmeets
        | false =>
          dsimp only
          cases hasks : (observer.onStep seen s).2 with
          | true => exact .asked s d hmeets hasks
          | false => exact .goes s d hmeets hasks

/-- The verdict on a run that has executed `steps` instructions. -/
def verdict (observer : Observer σ) (limit : Option Int) (steps : Nat) (seen : σ) (d : Debugger) :
    Verdict σ :=
  let pc := d.cpu.state.pc
  if stands steps d then .answers { reason := .breakpoint, steps, pc } seen (d.hit pc)
  else if reached limit steps then .answers { reason := .maxSteps, steps, pc } seen d
  else settle observer steps seen (round d)

/-- The verdicts on a run, with what each of them is based on. -/
inductive Judges (observer : Observer σ) (limit : Option Int) (steps : Nat) (seen : σ)
    (d : Debugger) : Verdict σ → Prop
  | standing (hstands : stands steps d = true) :
      Judges observer limit steps seen d
        (.answers { reason := .breakpoint, steps, pc := d.cpu.state.pc } seen
          (d.hit d.cpu.state.pc))
  | bound (hstands : stands steps d = false) (hreached : reached limit steps = true) :
      Judges observer limit steps seen d
        (.answers { reason := .maxSteps, steps, pc := d.cpu.state.pc } seen d)
  | executed (v : Verdict σ) (hends : endsAt limit steps d = false)
      (hsettles : Settles observer steps seen (round d) v) :
      Judges observer limit steps seen d v

theorem judges (observer : Observer σ) (limit : Option Int) (steps : Nat) (seen : σ)
    (d : Debugger) :
    Judges observer limit steps seen d (verdict observer limit steps seen d) := by
  rw [verdict]
  cases hstands : stands steps d with
  | true => exact .standing hstands
  | false =>
    cases hreached : reached limit steps with
    | true => exact .bound hstands hreached
    | false => exact .executed _ (Bool.or_eq_false_iff.2 ⟨hstands, hreached⟩) (settles _)

theorem verdict_of_ends_eq_false (h : endsAt limit steps d = false) :
    verdict observer limit steps seen d = settle observer steps seen (round d) := by
  obtain ⟨hstands, hreached⟩ := endsAt_eq_false h
  rw [verdict, if_neg hstands, if_neg hreached]

/-- A run is its first verdict, and what comes after that. -/
theorem runFrom_succ :
    runFrom observer limit (fuel + 1) steps seen d
      = (verdict observer limit steps seen d).resolve
          (runFrom observer limit fuel (steps + 1)) := by
  by_cases hstands : stands steps d = true
  · rw [verdict, if_pos hstands, runFrom, get_bind, if_pos hstands]
    rfl
  by_cases hreached : reached limit steps = true
  · rw [verdict, if_neg hstands, if_pos hreached]
    exact runFrom_of_reached observer seen hstands hreached fuel
  have hends : endsAt limit steps d = false :=
    Bool.or_eq_false_iff.2 ⟨Bool.eq_false_iff.2 hstands, Bool.eq_false_iff.2 hreached⟩
  rw [verdict_of_ends_eq_false hends]
  cases hround : round d with
  | error fault d' => exact runFrom_of_error hends hround fuel
  | ok r d' =>
    cases r with
    | trapped fault => exact runFrom_of_trapped hends hround fuel
    | done s =>
      rw [runFrom_of_done hends hround, settle]
      cases hmeets : Breakpoint.anyMeets d'.before s d'.breakpoints with
      | error fault => rfl
      | ok met =>
        cases met with
        | true => rfl
        | false =>
          rw [demand_bind rfl, if_neg Bool.false_ne_true]
          dsimp only
          cases (observer.onStep seen s).2 with
          | true => rfl
          | false => rfl

end Emu8080.Debugger
