/-
# Emu8080.Debugger.Basic -- a processor under control

A debugger owns a processor, a list of breakpoints, a bounded history of
snapshots and a rule for opcodes without an implementation: stop there, pass
over them as one byte, or hand the fault to the caller.

Its notices are kept in a journal until the host takes them.
-/
import Emu8080.Debugger.Breakpoint
import Emu8080.Notice

namespace Emu8080

set_option autoImplicit false

/-- What a run does at an opcode without an implementation. -/
inductive TrapPolicy
  | halt
  | skip
  | raise
deriving DecidableEq, Repr, Inhabited

namespace TrapPolicy

def all : List TrapPolicy := [.halt, .skip, .raise]

def name : TrapPolicy → String
  | .halt => "halt"
  | .skip => "skip"
  | .raise => "raise"

def ofName? (s : String) : Option TrapPolicy := all.find? (·.name == s)

/-- The policy of a name; nothing else is one. -/
def ofDatum (d : Datum) : Except Fault TrapPolicy := Choice.trapPolicy.find ofName? d

end TrapPolicy

/-- The flag policy of a name; nothing else is one. -/
def FlagPolicy.ofDatum (d : Datum) : Except Fault FlagPolicy :=
  Choice.flagPolicy.find FlagPolicy.ofName? d

/-- A processor under control.  `limit` bounds a run that is given no bound of its own, and
is looked at only then; `before` is the state before the last instruction. -/
structure Debugger where
  cpu : Cpu
  trapPolicy : TrapPolicy := .halt
  limit : Datum := .null
  capacity : Option Nat := some 1024
  breakpoints : List Breakpoint := []
  history : Array Snapshot := #[]
  last : Option Snapshot := none
  before : CpuState
  journal : Array Notice := #[]

namespace Debugger

/-- How many snapshots are kept unless the host says otherwise. -/
def defaultCapacity : Datum := .int 1024

/-- One more than the greatest capacity a history can have. -/
def capacityBound : Int := 0x8000000000000000

/-- The capacity that a value gives a history; nothing leaves it unbounded. -/
def capacityOf (d : Datum) : Except Fault (Option Nat) :=
  match d with
  | .null => .ok none
  | _ => do
      let n ← d.whole
      if n < -capacityBound ∨ capacityBound ≤ n then throw .overflow
      else if n < 0 then throw .historySize
      else return some n.toNat

/-- Take control of a processor, with no breakpoints and an empty history. -/
def attach (cpu : Cpu) (trapPolicy : TrapPolicy) (capacity limit : Datum) :
    Except Fault Debugger := do
  return { cpu, trapPolicy, limit, capacity := ← capacityOf capacity, before := cpu.state }

/-- Run an action on the processor. -/
def onCpu {α : Type} (x : Action Cpu α) : Action Debugger α :=
  Action.within
    (fun ⟨cpu, trapPolicy, limit, capacity, breakpoints, history, last, before, journal⟩ =>
      (cpu, fun cpu =>
        ⟨cpu, trapPolicy, limit, capacity, breakpoints, history, last, before, journal⟩)) x

/-- Add to the journal. -/
def report (level : Level) (text : Text) : Action Debugger Unit :=
  modify fun d => { d with journal := d.journal.push { level, text } }

/-- Add a snapshot to a history; of a full one the oldest goes. -/
def remember (capacity : Option Nat) (history : Array Snapshot) (s : Snapshot) : Array Snapshot :=
  match capacity with
  | none => history.push s
  | some n =>
      let grown := history.push s
      if grown.size ≤ n then grown else grown.extract (grown.size - n) grown.size

/-- Keep a snapshot as the last one and in the history. -/
def keep (s : Snapshot) : Action Debugger Unit :=
  modify fun d => { d with last := some s, history := remember d.capacity d.history s }

/-- One instruction under control.  Opcodes without an implementation fault here under
every trap policy. -/
def stepInstruction : Action Debugger Snapshot := do
  modify fun d => { d with before := d.cpu.state }
  let s ← onCpu Cpu.step
  keep s
  return s

/-- The operation that stands for a passed-over opcode: one byte that does nothing. -/
def skipOperation (opcode : UInt8) (mnemonic : Datum) : Operation :=
  { opcodeHex := .str (Operation.hexOf opcode), mnemonic := .str ("*SKIP " ++ mnemonic.text) }

/-- Pass over an opcode without an implementation. -/
def skipTrapped (opcode : UInt8) (pc mnemonic : Datum) : Action Debugger Snapshot := do
  let s ← onCpu (Cpu.skip pc (skipOperation opcode mnemonic))
  keep s
  return s

end Debugger

end Emu8080
