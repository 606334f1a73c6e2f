/-
# Emu8080.Proofs.Cycle -- the cycle of a processor is the step of its machine

`Machine.step` is one action; `Cpu.step` is put together from phases that look
the state up again each time.  Both are a `Machine.cycle`: the step makes sure of
the bus first, the processor records what the cycle left.  A statement about
cycles is thus one about both.
-/
import Emu8080.Cpu
import Emu8080.Proofs.Primitive

namespace Emu8080

set_option autoImplicit false

open Emu8080.Action (get_bind bind_of_ok bind_of_error whole_bind)

namespace Machine

variable {m : Machine}

/-- The same machine with nothing in its log. -/
def quiet (m : Machine) : Machine := { m with memory := { m.memory with log := [] } }

theorem takeLog_eq (m : Machine) : onMemory Memory.takeLog m = .ok m.memory.log m.quiet :=
  onMemory_of_ok rfl

/-- The same machine at another place. -/
def moved (m : Machine) (pc : Datum) : Machine := { m with state := { m.state with pc } }

/-- Move the program counter past an operation that was fetched at `pc`. -/
def advance (op : Operation) (pc : Datum) : Exec Unit := do
  let base ← Action.whole pc
  let length ← Action.whole op.length
  modifyState fun s => { s with pc := .int ((base + length) % 65536) }

/-- Carry out an operation and check the state. -/
def complete (op : Operation) (policy : FlagPolicy) : Exec Unit := do
  op.execute policy
  Action.demand (← get).state.validate

/-- One cycle on the memory of the machine, whatever the state holds in its place. -/
def cycle (policy : FlagPolicy) : Exec Operation := do
  let _ ← onMemory Memory.takeLog
  let pc := (← get).state.pc
  let opcode ← read pc
  let op ← onMemory (Operation.decode opcode pc)
  advance op pc
  complete op policy
  return op

theorem step_of_bus (h : m.state.bus = .memory) (policy : FlagPolicy) :
    step policy m = cycle policy m := by
  have hstep : step policy = (reach >>= fun _ => cycle policy) := by
    simp only [step, cycle, advance, complete, bind_assoc]
  rw [hstep, bind_of_ok (reach_of_bus h)]

/-- An action on the memory leaves the state alone. -/
theorem state_onMemory {α : Type} {x : Action Memory α} {a : α} {m' : Machine}
    (h : onMemory x m = .ok a m') : m'.state = m.state := by
  cases hx : x m.memory with
  | ok b memory =>
    rw [onMemory_of_ok hx] at h
    injection h with _ hm
    rw [← hm]
  | error fault memory =>
    rw [onMemory_of_error hx] at h
    exact nomatch h

end Machine

namespace Cpu

variable {c : Cpu}

theorem onMachine_of_ok {α : Type} {x : Exec α} {a : α} {m : Machine}
    (h : x c.machine = .ok a m) : onMachine x c = .ok a { c with machine := m } := by
  unfold onMachine
  exact Action.within_of_ok h

theorem onMachine_of_error {α : Type} {x : Exec α} {fault : Fault} {m : Machine}
    (h : x c.machine = .error fault m) : onMachine x c = .error fault { c with machine := m } := by
  unfold onMachine
  exact Action.within_of_error h

theorem onMachine_bind {α β : Type} (x : Exec α) (f : α → Exec β) :
    onMachine (x >>= f) = (onMachine x >>= fun a => onMachine (f a)) := by
  funext c
  cases hx : x c.machine with
  | ok a m => simp only [onMachine, Action.within_eq, bind, EStateM.bind, hx]
  | error fault m => simp only [onMachine, Action.within_eq, bind, EStateM.bind, hx]

theorem onMachine_demand {α : Type} (x : Except Fault α) :
    onMachine (Action.demand x) = Action.demand x := by
  cases x <;> rfl

/-! ## Phases

Each phase is an action of the machine on the state that it finds. -/

theorem fetch_eq (c : Cpu) : fetch c = onMachine (Machine.read c.machine.state.pc) c := rfl

theorem decode_eq (opcode : UInt8) (c : Cpu) :
    decode opcode c
      = onMachine (Machine.onMemory (Operation.decode opcode c.machine.state.pc)) c := rfl

theorem advance_eq (op : Operation) (c : Cpu) :
    advance op c = onMachine (Machine.advance op c.machine.state.pc) c := by
  rw [Machine.advance, onMachine_bind, Action.whole, onMachine_demand]
  simp only [onMachine_bind, Action.whole, onMachine_demand]
  rfl

theorem execute_eq (op : Operation) (c : Cpu) :
    execute op c = onMachine (Machine.complete op c.policy) c := by
  have hcheck : onMachine (get >>= fun m : Machine => Action.demand m.state.validate)
      = (get >>= fun c : Cpu => Action.demand c.machine.state.validate) := by
    rw [onMachine_bind]
    simp only [onMachine_demand]
    rfl
  rw [Machine.complete, onMachine_bind, hcheck]
  rfl

/-! ## The cycle -/

/-- What a completed cycle leaves on record. -/
def snapshotOf (c : Cpu) (op : Operation) (m : Machine) : Snapshot :=
  { state := m.state
    operation := op
    count := c.count + 1
    initialPc := c.machine.state.pc
    activity := m.memory.log }

theorem record_eq (c : Cpu) (pc : Datum) (op : Operation) :
    record pc op c
      = .ok { state := c.machine.state, operation := op, count := c.count + 1, initialPc := pc,
              activity := c.machine.memory.log }
          { c with machine := c.machine.quiet, count := c.count + 1 } := rfl

/-- The phases of a processor are a cycle of its machine and a record of it. -/
theorem step_eq (c : Cpu) :
    step c = match Machine.cycle c.policy c.machine with
      | .ok op m => .ok (c.snapshotOf op m) { c with machine := m.quiet, count := c.count + 1 }
      | .error fault m => .error fault { c with machine := m } := by
  have htake : onMemory Memory.takeLog c
      = .ok c.machine.memory.log { c with machine := c.machine.quiet } :=
    onMachine_of_ok (Machine.takeLog_eq c.machine)
  rw [step, bind_of_ok htake, get_bind, Machine.cycle, bind_of_ok (Machine.takeLog_eq _), get_bind]
  -- both sides fault together, wherever one of them does
  cases hread : Machine.read c.machine.quiet.state.pc c.machine.quiet with
  | error fault m₁ =>
    rw [bind_of_error ((fetch_eq _).trans (onMachine_of_error hread)), bind_of_error hread]
  | ok opcode m₁ =>
    have hkept : m₁.state = c.machine.quiet.state := Machine.state_onMemory hread
    rw [bind_of_ok ((fetch_eq _).trans (onMachine_of_ok hread)), bind_of_ok hread,
      ← hkept]
    cases hdecode : Machine.onMemory (Operation.decode opcode m₁.state.pc) m₁ with
    | error fault m₂ =>
      rw [bind_of_error ((decode_eq _ _).trans (onMachine_of_error hdecode)), bind_of_error hdecode]
    | ok op m₂ =>
      rw [bind_of_ok ((decode_eq _ _).trans (onMachine_of_ok hdecode)), bind_of_ok hdecode,
        ← Machine.state_onMemory hdecode]
      cases hadvance : Machine.advance op m₂.state.pc m₂ with
      | error fault m₃ =>
        rw [bind_of_error ((advance_eq _ _).trans (onMachine_of_error hadvance)),
          bind_of_error hadvance]
      | ok _ m₃ =>
        rw [bind_of_ok ((advance_eq _ _).trans (onMachine_of_ok hadvance)), bind_of_ok hadvance]
        cases hcomplete : Machine.complete op c.policy m₃ with
        | error fault m₄ =>
          rw [bind_of_error ((execute_eq _ _).trans (onMachine_of_error hcomplete)),
            bind_of_error hcomplete]
        | ok _ m₄ =>
          rw [bind_of_ok ((execute_eq _ _).trans (onMachine_of_ok hcomplete)), bind_of_ok hcomplete,
            record_eq]
          rfl

/-- The same outcome, for a cycle that is known to end well. -/
theorem step_of_ok {op : Operation} {m : Machine}
    (h : Machine.cycle c.policy c.machine = .ok op m) :
    step c = .ok (c.snapshotOf op m) { c with machine := m.quiet, count := c.count + 1 } := by
  rw [step_eq, h]

/-- A cycle that faults is the fault of the processor; nothing is counted. -/
theorem step_of_error {fault : Fault} {m : Machine}
    (h : Machine.cycle c.policy c.machine = .error fault m) :
    step c = .error fault { c with machine := m } := by
  rw [step_eq, h]

theorem advance_of_int {op : Operation} {n k : Int} (hpc : c.state.pc.int? = some n)
    (hlength : op.length.int? = some k) :
    advance op c = .ok ⟨⟩ { c with machine := c.machine.moved (.int ((n + k) % 65536)) } := by
  rw [advance, get_bind, whole_bind hpc, whole_bind hlength]
  rfl

/-- Passing over an operation moves the program counter and counts; nothing else happens. -/
theorem skip_eq {pc : Datum} {op : Operation} {n k : Int} (hpc : pc.int? = some n)
    (hlength : op.length.int? = some k) (c : Cpu) :
    let m := c.machine.moved (.int ((n + k) % 65536))
    skip pc op c
      = .ok { state := m.state, operation := op, count := c.count + 1, initialPc := pc,
              activity := m.memory.log }
          { c with machine := m.quiet, count := c.count + 1 } := by
  intro m
  have hplace : onMachine (Machine.modifyState fun s => { s with pc }) c
      = .ok ⟨⟩ { c with machine := c.machine.moved pc } := rfl
  have hadvance : advance op { c with machine := c.machine.moved pc }
      = .ok ⟨⟩ { c with machine := m } := advance_of_int hpc hlength
  rw [skip, bind_of_ok hplace, bind_of_ok hadvance, record_eq]

end Cpu

end Emu8080
