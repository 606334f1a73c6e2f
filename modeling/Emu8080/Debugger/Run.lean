/-
# Emu8080.Debugger.Run -- running until something stops it

A run repeats instructions until a breakpoint is met, an opcode without an
implementation stops it, the bound on its length is reached, or its observer
asks for the end.  The observer sees each snapshot with a state of its own, and
answers whether to stop.

Within one round the order is fixed.  Before an instruction the breakpoints at
the program counter are looked at, except at the very start of the run, and then
the bound; after it the observer is asked, then the other breakpoints decide,
and the observer's wish counts only if none of them is met.

A run without a bound need not end, so `run` is given a number of rounds and
answers `none` when they are used up.
-/
import Emu8080.Debugger.Basic

namespace Emu8080

set_option autoImplicit false

/-- Why a run stopped. -/
inductive StopReason
  | breakpoint | trap | maxSteps | stopped
deriving DecidableEq, Repr

def StopReason.name : StopReason → String
  | .breakpoint => "BREAKPOINT"
  | .trap => "TRAP"
  | .maxSteps => "MAX_STEPS"
  | .stopped => "STOPPED"

/-- The end of a run: the instructions executed, the program counter, and the fault if an
opcode without an implementation stopped it. -/
structure RunResult where
  reason : StopReason
  steps : Nat
  pc : Datum
  fault : Option Fault := none

/-- A status for the host's process: only a trap is a failure. -/
def RunResult.exitStatus (r : RunResult) : Nat := if r.reason = .trap then 1 else 0

/-- Someone who looks at every instruction of a run and may end it. -/
structure Observer (σ : Type) where
  onStep : σ → Snapshot → σ × Bool

/-- An observer that never stops anything. -/
def Observer.silent : Observer Unit := ⟨fun _ _ => ((), false)⟩

namespace Debugger

variable {σ : Type}

/-- What one round of a run executed. -/
inductive Round
  | done (s : Snapshot)
  | trapped (fault : Fault)

/-- Execute one instruction of a run, dealing with a trap as the policy says. -/
def round : Action Debugger Round := do
  match ← Action.attempt stepInstruction with
  | .ok s => return .done s
  | .error (.unimplemented opcode pc mnemonic) =>
      let place := Text.hexField 2 opcode.toNat ++ " at PC " ++ Text.address (pc.int?.getD 0)
      match (← get).trapPolicy with
      | .raise => throw (.unimplemented opcode pc mnemonic)
      | .halt =>
          report .error ("Unimplemented instruction 0x" ++ place)
          return .trapped (.unimplemented opcode pc mnemonic)
      | .skip =>
          report .warning ("Skipping unimplemented instruction 0x" ++ place)
          return .done (← skipTrapped opcode pc mnemonic)
  | .error fault => throw fault

/-- Close a run at the present program counter. -/
def finish (reason : StopReason) (steps : Nat) (fault : Option Fault) :
    Action Debugger RunResult := do
  return { reason, steps, pc := (← get).cpu.state.pc, fault }

/-- Report that a breakpoint was met. -/
def reportHit (pc : Datum) : Action Debugger Unit :=
  report .info ("Breakpoint hit at PC: " ++ Text.address (pc.int?.getD 0))

/-- The bound that a value puts on the length of a run: nothing puts none, and a fraction is
reached with the least count that is no less. -/
def boundOf : Datum → Except Fault (Option Int)
  | .null => .ok none
  | .float x =>
      .ok (if x.isFinite then x.ceiling? else if x.isNaN || !x.isNegative then none else some 0)
  | d =>
      match d.int? with
      | some n => .ok (some n)
      | none => .error .wrongKind

/-- The bound on a run: the one it is given, or else the debugger's own. -/
def boundFor (d : Debugger) : Datum → Except Fault (Option Int)
  | .null => boundOf d.limit
  | bound => boundOf bound

/-- Whether a run that has executed `steps` instructions has reached its bound. -/
def reached (limit : Option Int) (steps : Nat) : Bool :=
  match limit with
  | some n => n ≤ steps
  | none => false

/-- Go on with a run after `steps` instructions, for at most `fuel` rounds. -/
def runFrom (observer : Observer σ) (limit : Option Int) :
    Nat → Nat → σ → Action Debugger (Option (RunResult × σ))
  | 0, _, _ => return none
  | fuel + 1, steps, seen => do
      let d ← get
      let pc := d.cpu.state.pc
      if steps ≠ 0 && d.breakpoints.any (·.standsAt pc) then
        reportHit pc
        return some (← finish .breakpoint steps none, seen)
      else if reached limit steps then
        return some (← finish .maxSteps steps none, seen)
      else
        match ← round with
        | .trapped fault => return some (← finish .trap steps (some fault), seen)
        | .done s =>
            let (seen, stop) := observer.onStep seen s
            let d ← get
            if ← Action.demand (Breakpoint.anyMeets d.before s d.breakpoints) then
              reportHit s.state.pc
              return some (← finish .breakpoint (steps + 1) none, seen)
            else if stop then
              return some (← finish .stopped (steps + 1) none, seen)
            else
              runFrom observer limit fuel (steps + 1) seen

/-- Run from the present state, with the given bound or else the debugger's own.  A bound
that is no number is refused before anything is executed. -/
def run (fuel : Nat) (bound : Datum) (observer : Observer σ) (start : σ) :
    Action Debugger (Option (RunResult × σ)) := do
  let limit ← Action.demand ((← get).boundFor bound)
  runFrom observer limit fuel 0 start

theorem boundOf_int (n : Int) : boundOf (.int n) = .ok (some n) := rfl

theorem boundFor_null (d : Debugger) : d.boundFor .null = boundOf d.limit := rfl

end Debugger

end Emu8080
