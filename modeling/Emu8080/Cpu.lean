/-
# Emu8080.Cpu -- a processor that records its cycles

A processor is a machine with a flag policy and a count of instructions.  Each
completed cycle gives a snapshot: the state after it, the operation, its place,
its number, and the bus accesses it made.

The cycle is put together from its phases here, each acting on the processor;
`Machine.step` is the same cycle on a bare machine.  A processor fetches from the
memory it owns, whatever the state holds in its place, and a state that is put
into it is put on its bus, without what a host has stored beside its fields.
-/
import Emu8080.Instr.Execute

namespace Emu8080

set_option autoImplicit false

/-- A completed instruction. -/
structure Snapshot where
  state : CpuState
  operation : Operation
  count : Nat
  initialPc : Datum
  activity : List Access

/-- A processor with its memory. -/
structure Cpu where
  machine : Machine := {}
  policy : FlagPolicy := .preserve
  count : Nat := 0

namespace Cpu

def state (c : Cpu) : CpuState := c.machine.state

def memory (c : Cpu) : Memory := c.machine.memory

/-- A processor over a memory, in its initial state. -/
def ofMemory (memory : Memory) (policy : FlagPolicy) : Cpu :=
  { machine := { memory }, policy }

/-- Run an action on the machine. -/
def onMachine {α : Type} (x : Exec α) : Action Cpu α :=
  Action.within (fun ⟨machine, policy, count⟩ => (machine, fun machine => ⟨machine, policy, count⟩)) x

/-- Run an action on the memory. -/
def onMemory {α : Type} (x : Action Memory α) : Action Cpu α := onMachine (Machine.onMemory x)

/-- Replace the state by a copy on the bus of this processor.  Only fields are copied. -/
def restore (s : CpuState) (c : Cpu) : Cpu :=
  { c with machine := { c.machine with state := { s with bus := .memory, extras := [] } } }

/-- Back to the initial state; the memory keeps its contents. -/
def reset (c : Cpu) : Cpu := { c.restore {} with count := 0 }

/-- Fetch the opcode at the program counter. -/
def fetch : Action Cpu UInt8 := do
  let pc := (← get).state.pc
  onMemory (Memory.read pc)

/-- Decode an opcode at the program counter. -/
def decode (opcode : UInt8) : Action Cpu Operation := do
  let pc := (← get).state.pc
  onMemory (Operation.decode opcode pc)

/-- Move the program counter past an operation. -/
def advance (op : Operation) : Action Cpu Unit := do
  let pc ← Action.whole (← get).state.pc
  let length ← Action.whole op.length
  onMachine (Machine.modifyState fun s => { s with pc := .int ((pc + length) % 65536) })

/-- Execute an operation and check the state. -/
def execute (op : Operation) : Action Cpu Unit := do
  let policy := (← get).policy
  onMachine (op.execute policy)
  Action.demand (← get).state.validate

/-- Count the instruction and record it with the accesses in the log. -/
def record (initialPc : Datum) (op : Operation) : Action Cpu Snapshot := do
  let activity ← onMemory Memory.takeLog
  modify fun c => { c with count := c.count + 1 }
  let c ← get
  return { state := c.state, operation := op, count := c.count, initialPc, activity }

/-- One instruction cycle. -/
def step : Action Cpu Snapshot := do
  let _ ← onMemory Memory.takeLog
  let initialPc := (← get).state.pc
  let opcode ← fetch
  let op ← decode opcode
  advance op
  execute op
  record initialPc op

/-- Pass over an operation at a place of the host's choice, without executing it. -/
def skip (initialPc : Datum) (op : Operation) : Action Cpu Snapshot := do
  onMachine (Machine.modifyState fun s => { s with pc := initialPc })
  advance op
  record initialPc op

end Cpu

end Emu8080
