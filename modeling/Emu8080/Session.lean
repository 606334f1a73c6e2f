/-
# Emu8080.Session -- a host at work with a debugger

A session is a debugger with a set of saved states and the host's files.  Each
request of the host is a value and is answered by `Request.answer`; a request
that faults keeps what it had changed, and the session goes on.
-/
import Emu8080.Debugger.Run
import Emu8080.Store

namespace Emu8080

set_option autoImplicit false

/-- A debugger in use. -/
structure Session where
  debugger : Debugger
  saved : List (Datum × CpuState) := []
  files : Files := []

/-- What a host asks of a session. -/
inductive Request
  | memory (r : MemoryRequest)
  /-- A cycle of the processor itself, past the debugger. -/
  | step
  | debugStep
  | skip (pc : Datum) (op : Operation)
  /-- Run with a bound, ending it when the count of observed instructions agrees with a value. -/
  | run (bound stopAfter : Datum)
  | stop
  | addBreakpoint (b : Breakpoint)
  | removeBreakpoint (b : Breakpoint)
  | breakpoints
  | history
  | last
  /-- Put a new debugger in control of the same processor. -/
  | attach (trapPolicy capacity limit : Datum)
  | settings
  | reset
  | save (name : Datum)
  | saved (name : Datum)
  | restore (name : Datum)
  | restoreHistory (index : Datum)
  | set (fields : List (Text × Datum))
  | state
  | registers
  | flags
  | count

/-- An instruction of a run as its observer notes it: where it stood and what it was. -/
abbrev TraceEntry := Datum × Datum

/-- What a session answers. -/
inductive Reply
  | nothing
  | memory (a : MemoryAnswer)
  | snapshot (s : Option Snapshot)
  | snapshots (list : List Snapshot)
  | ran (result : RunResult) (trace : List TraceEntry) (state : CpuState)
  /-- The run had not ended when its rounds were used up. -/
  | unfinished
  | number (n : Nat)
  | breakpoints (list : List Breakpoint)
  | settings (policy : FlagPolicy) (trapPolicy : TrapPolicy) (limit : Datum)
  | state (s : CpuState)
  | registers (entries : List (String × Datum))
  | flags (entries : List (Flag × Bool))

/-- What an observer has noted, the newest first, and how much of it there is. -/
structure Trace where
  count : Nat := 0
  entries : List TraceEntry := []

/-- An observer that notes every instruction and ends the run at a given count. -/
def Observer.tracing (stopAfter : Datum) : Observer Trace :=
  ⟨fun trace s =>
    let count := trace.count + 1
    ({ count, entries := (s.initialPc, s.operation.mnemonic) :: trace.entries },
      stopAfter.agreesInt count)⟩

namespace Session

/-- How many rounds a run without a bound is given. -/
def patience : Nat := 1000000

/-- Enough rounds for a run with this bound. -/
def roundsFor (limit : Except Fault (Option Int)) : Nat :=
  match limit with
  | .ok (some n) => n.toNat + 1
  | _ => patience

/-- Run an action on the debugger. -/
def onDebugger {α : Type} (x : Action Debugger α) : Action Session α :=
  Action.within
    (fun ⟨debugger, saved, files⟩ => (debugger, fun debugger => ⟨debugger, saved, files⟩)) x

/-- Run an action on the processor. -/
def onCpu {α : Type} (x : Action Cpu α) : Action Session α := onDebugger (Debugger.onCpu x)

/-- Put a state into the processor and answer it. -/
def putState (s : CpuState) : Action Session Reply := do
  onCpu (modify (·.restore s))
  return .state (← get).debugger.cpu.state

/-- The element at an index, counted from the end if negative. -/
def atIndex {α : Type} (items : List α) (index : Int) : Except Fault α :=
  let position := if index < 0 then index + items.length else index
  if position < 0 then .error .pastEnd
  else
    match items[position.toNat]? with
    | some a => .ok a
    | none => .error .pastEnd

/-- A name that something can be saved under: any value that can be a key. -/
def nameOf (name : Datum) : Except Fault Datum :=
  if name.canBeKey then .ok name else .error .wrongKind

/-- A saved state. -/
def savedState (name : Datum) (s : Session) : Except Fault CpuState := do
  match Datum.lookup? (← nameOf name) s.saved with
  | some state => return state
  | none => throw .noEntry

/-- Run the debugger and note what it executes. -/
def run (bound stopAfter : Datum) : Action Session Reply := do
  let limit := (← get).debugger.boundFor bound
  let outcome ← onDebugger
    (Debugger.run (roundsFor limit) bound (Observer.tracing stopAfter) {})
  match outcome with
  | some (result, trace) => return .ran result trace.entries.reverse (← get).debugger.cpu.state
  | none => return .unfinished

end Session

namespace Request

open Session

/-- Answer a request. -/
def answer : Request → Action Session Reply
  | .memory r => do
      let files := (← get).files
      let a ← onCpu (Cpu.onMemory (r.answer files))
      match a with
      | .loaded _ notice => onDebugger (Debugger.report notice.level notice.text)
      | _ => pure ()
      return .memory a
  | .step => do return .snapshot (some (← onCpu Cpu.step))
  | .debugStep => do return .snapshot (some (← onDebugger Debugger.stepInstruction))
  | .skip pc op => do return .snapshot (some (← onCpu (Cpu.skip pc op)))
  | .run bound stopAfter => Session.run bound stopAfter
  | .stop => return .nothing
  | .addBreakpoint b => do
      modify fun s => { s with debugger.breakpoints := b.insert s.debugger.breakpoints }
      return .number (← get).debugger.breakpoints.length
  | .removeBreakpoint b => do
      modify fun s => { s with debugger.breakpoints := b.erase s.debugger.breakpoints }
      return .number (← get).debugger.breakpoints.length
  | .breakpoints => do return .breakpoints (← get).debugger.breakpoints
  | .history => do return .snapshots (← get).debugger.history.toList
  | .last => do return .snapshot (← get).debugger.last
  | .attach trapPolicy capacity limit => do
      let policy ← Action.demand (TrapPolicy.ofDatum trapPolicy)
      let d := (← get).debugger
      let fresh ← Action.demand (Debugger.attach d.cpu policy capacity limit)
      modify fun s => { s with debugger := { fresh with journal := d.journal } }
      return .nothing
  | .settings => do
      let d := (← get).debugger
      return .settings d.cpu.policy d.trapPolicy d.limit
  | .reset => do
      onCpu (modify Cpu.reset)
      return .state (← get).debugger.cpu.state
  | .save name => do
      let name ← Action.demand (nameOf name)
      let s := (← get).debugger.cpu.state
      modify fun session => { session with saved := (name, s) :: session.saved }
      return .nothing
  | .saved name => do return .state (← Action.demand (savedState name (← get)))
  | .restore name => do putState (← Action.demand (savedState name (← get)))
  | .restoreHistory index => do
      let index ← Action.whole index
      let s ← Action.demand (atIndex (← get).debugger.history.toList index)
      putState s.state
  | .set fields => do
      onCpu (Cpu.onMachine (Machine.onState (CpuState.assign fields)))
      return .state (← get).debugger.cpu.state
  | .state => do return .state (← get).debugger.cpu.state
  | .registers => do return .registers (← Action.demand (← get).debugger.cpu.state.registerMap)
  | .flags => do return .flags (← get).debugger.cpu.state.flagMap
  | .count => do return .number (← get).debugger.cpu.count

end Request

end Emu8080
