/-
# Emu8080.Proofs.Lockstep -- the step of a machine and the cycle of a processor

A bare machine takes steps, a processor goes through its phases and records
them.  Put over the same state and the same bytes (`Cpu.Mirrors`), whatever the
state holds, they stay the same through every step, restored state and reset, and
every step comes out the same for both (`Cpu.Agrees`): it completes with one
operation, one state, one memory and one list of accesses, or it is refused with
one fault, after the same changes.

The two differ in their logs alone: a processor takes the accesses into its
record, a machine leaves them in its log until the next step.  A cycle does not
look at the log it finds, so that the difference is never seen.
-/
import Emu8080.Proofs.Keeping

namespace Emu8080

set_option autoImplicit false

open Emu8080.Action (final final_of_ok final_of_error)

/-- What a host does to a machine or a processor between two steps, or a step itself. -/
inductive Order
  | step
  | restore (s : CpuState)
  | reset

/-- A bare machine follows an order; its memory keeps its contents. -/
def Machine.obey (policy : FlagPolicy) (m : Machine) : Order → Machine
  | .step => (Machine.step policy).final m
  | .restore s => { m with state := { s with bus := .memory, extras := [] } }
  | .reset => { m with state := {} }

namespace Cpu

/-- A processor follows an order. -/
def obey (c : Cpu) : Order → Cpu
  | .step => Cpu.step.final c
  | .restore s => c.restore s
  | .reset => c.reset

/-- A processor and a machine hold the same state and the same bytes, and the state is on the bus of
this memory. -/
structure Mirrors (c : Cpu) (m : Machine) : Prop where
  state : c.state = m.state
  bytes : c.memory.bytes = m.memory.bytes
  bus : m.state.bus = .memory

/-- A step of a machine and a step of the processor `c` come out the same. -/
inductive Agrees (c : Cpu) :
    EStateM.Result Fault Machine Operation → EStateM.Result Fault Cpu Snapshot → Prop
  | completed {op : Operation} {m : Machine} {s : Snapshot} {c' : Cpu}
      (operation : s.operation = op) (recorded : s.state = m.state)
      (activity : s.activity = m.memory.log) (state : c'.state = m.state)
      (bytes : c'.memory.bytes = m.memory.bytes) (count : c'.count = c.count + 1) :
      Agrees c (.ok op m) (.ok s c')
  | refused {fault : Fault} {m : Machine} {c' : Cpu} (state : c'.state = m.state)
      (bytes : c'.memory.bytes = m.memory.bytes) (log : c'.memory.log = m.memory.log)
      (count : c'.count = c.count) :
      Agrees c (.error fault m) (.error fault c')

variable {c : Cpu} {m : Machine}

theorem Mirrors.quiet (h : c.Mirrors m) : c.machine.quiet = m.quiet := by
  have hstate : c.machine.state = m.state := h.state
  have hbytes : c.machine.memory.bytes = m.memory.bytes := h.bytes
  simp only [Machine.quiet, hstate, hbytes]

/-- The step of the machine is the cycle inside the processor. -/
theorem Mirrors.step_eq (h : c.Mirrors m) :
    Machine.step c.policy m = Machine.cycle c.policy c.machine := by
  rw [Machine.step_of_bus h.bus, Machine.cycle_quiet, ← h.quiet, ← Machine.cycle_quiet]

theorem Mirrors.agrees (h : c.Mirrors m) : c.Agrees (Machine.step c.policy m) (Cpu.step c) := by
  rw [h.step_eq, Cpu.step_eq]
  cases Machine.cycle c.policy c.machine with
  | ok op m' => exact .completed rfl rfl rfl rfl rfl rfl
  | error fault m' => exact .refused rfl rfl rfl rfl

/-- Both go on from the same state, whether the step was completed or refused. -/
theorem Mirrors.step (h : c.Mirrors m) : (c.obey .step).Mirrors (m.obey c.policy .step) := by
  have hbus : c.machine.state.bus = .memory := by
    rw [show c.machine.state = m.state from h.state]
    exact h.bus
  have hkept : ((Machine.cycle c.policy).final c.machine).state.bus = .memory :=
    Machine.cycle_keeps (Machine.stable_bus .memory) c.policy hbus
  rw [obey, Machine.obey, final, final, h.step_eq, Cpu.step_eq]
  rw [final] at hkept
  cases hrun : Machine.cycle c.policy c.machine with
  | ok op m' =>
    rw [hrun] at hkept
    exact ⟨rfl, rfl, hkept⟩
  | error fault m' =>
    rw [hrun] at hkept
    exact ⟨rfl, rfl, hkept⟩

theorem Mirrors.obey (h : c.Mirrors m) (order : Order) :
    (c.obey order).Mirrors (m.obey c.policy order) := by
  cases order with
  | step => exact h.step
  | restore s => exact ⟨rfl, h.bytes, rfl⟩
  | reset => exact ⟨rfl, h.bytes, rfl⟩

theorem policy_obey (c : Cpu) (order : Order) : (c.obey order).policy = c.policy := by
  cases order with
  | step =>
    rw [Cpu.obey, final, Cpu.step_eq]
    cases Machine.cycle c.policy c.machine <;> rfl
  | restore s => rfl
  | reset => rfl

/-- A machine and a processor that are given the same orders, from any state over the same bytes,
take every step alike: each is completed by both or refused by both, with the same outcome, and the
processor counts what is completed.  The state may hold any values in its fields and in each of its
five condition codes. -/
theorem steps_agree (h : c.Mirrors m) (orders : List Order) :
    let c' := orders.foldl Cpu.obey c
    let m' := orders.foldl (Machine.obey c.policy) m
    c'.Mirrors m' ∧ c'.Agrees (Machine.step c.policy m') (Cpu.step c') := by
  induction orders generalizing c m with
  | nil => exact ⟨h, h.agrees⟩
  | cons order orders ih =>
    have hrest := ih (h.obey order)
    rw [policy_obey] at hrest
    exact hrest

/-- A truth value for a program counter, a register that is out of range, and a restored state
without a stack pointer. -/
theorem steps_agree_out_of_domain :
    let bytes := Memory.zero.store 1 0x04
    let m : Machine :=
      { state := { pc := .bool true, c := .int 300 }, memory := bytes.note (.read 7 7) }
    let c : Cpu := { machine := { m with memory := bytes }, policy := .clear, count := 5 }
    let orders := [Order.step, .step, .reset, .step, .restore { sp := .null }]
    c.Mirrors m
    ∧ (orders.foldl Cpu.obey c).Agrees
        (Machine.step .clear (orders.foldl (Machine.obey .clear) m))
        (Cpu.step (orders.foldl Cpu.obey c)) := by
  intro bytes m c orders
  have h : c.Mirrors m := ⟨rfl, rfl, rfl⟩
  exact ⟨h, (steps_agree h orders).2⟩

end Cpu

end Emu8080
