/-
# Emu8080.Proofs.Keeping -- what survives an action

A property of states is kept by an action if it holds afterwards whenever it
held before, whatever came of the action.  Sequences keep what their parts keep
(`Keeps.bind`), so a property of machines has to be looked at three times only:
at a read, at a write, and at a change of the state that leaves its bus alone.
`Machine.Stable` asks for these, and `Machine.cycle_keeps` gives the property
back for cycles, of any state and for faults as well.  Once a cycle has moved the
program counter its instruction leaves that alone too, so
`Operation.execute_keeps` asks for less (`Machine.Steady`).

An instruction keeps what its parts keep, since it is put together from them
(`Machine.Composed.keeps`).

The bus is a stable property (`Machine.stable_bus`), the program counter a steady
one (`Machine.steady_pc`).
-/
import Emu8080.Proofs.Composed
import Emu8080.Proofs.Cycle

namespace Emu8080

set_option autoImplicit false

open Emu8080.Action (final final_of_ok final_of_error bind_of_ok bind_of_error)

namespace Action

variable {σ α β : Type} {P : σ → Prop}

/-- The property holds after the action if it held before. -/
def Keeps (P : σ → Prop) (x : Action σ α) : Prop := ∀ s, P s → P (x.final s)

theorem final_bind_of_ok {x : Action σ α} {a : α} {s t : σ} (h : x s = .ok a t)
    (f : α → Action σ β) : (x >>= f).final s = (f a).final t := by
  simp only [final, bind_of_ok h]

theorem final_bind_of_error {x : Action σ α} {fault : Fault} {s t : σ} (h : x s = .error fault t)
    (f : α → Action σ β) : (x >>= f).final s = t := by
  simp only [final, bind_of_error h]

theorem Keeps.pure (a : α) : Keeps P (pure a : Action σ α) := fun _ h => h

theorem Keeps.throw (fault : Fault) : Keeps P (throw fault : Action σ α) := fun _ h => h

theorem Keeps.get : Keeps P (get : Action σ σ) := fun _ h => h

theorem Keeps.demand (x : Except Fault α) : Keeps P (demand x) := by
  intro s h
  cases x <;> exact h

theorem Keeps.whole (d : Datum) : Keeps P (whole d) := Keeps.demand d.whole

theorem Keeps.bind {x : Action σ α} {f : α → Action σ β} (hx : Keeps P x)
    (hf : ∀ a, Keeps P (f a)) : Keeps P (x >>= f) := by
  intro s h
  have hpart := hx s h
  cases hrun : x s with
  | ok a t =>
    rw [final_of_ok hrun] at hpart
    rw [final_bind_of_ok hrun]
    exact hf a t hpart
  | error fault t =>
    rw [final_of_error hrun] at hpart
    rw [final_bind_of_error hrun]
    exact hpart

end Action

open Emu8080.Action (Keeps)

namespace Operation

variable {Q : Memory → Prop}

theorem readBytes_keeps (hread : ∀ d, Keeps Q (Memory.read d)) (pc : Datum) (offset count : Nat) :
    Keeps Q (readBytes pc offset count) := by
  induction count generalizing offset with
  | zero => exact Keeps.pure []
  | succ count ih =>
    refine (Keeps.whole pc).bind fun base => ?_
    refine (hread _).bind fun v => ?_
    exact (ih (offset + 1)).bind fun rest => Keeps.pure (v :: rest)

theorem decode_keeps (hread : ∀ d, Keeps Q (Memory.read d)) (opcode : UInt8) (pc : Datum) :
    Keeps Q (decode opcode pc) := by
  unfold decode
  split
  · exact Keeps.throw _
  · exact (readBytes_keeps hread pc 1 _).bind fun bytes => Keeps.pure _

end Operation

namespace Machine

/-- A property of machines that reads, writes and changes of the fields of the state keep. -/
structure Stable (P : Machine → Prop) : Prop where
  read : ∀ state d, Keeps (fun memory => P ⟨state, memory⟩) (Memory.read d)
  write : ∀ state d data, Keeps (fun memory => P ⟨state, memory⟩) (Memory.write d data)
  modify : ∀ f : CpuState → CpuState, (∀ s, (f s).bus = s.bus) → Keeps P (modifyState f)

/-- A property of machines that reads, writes and changes that have nothing to do with the place of
an instruction keep. -/
structure Steady (P : Machine → Prop) : Prop where
  read : ∀ state d, Keeps (fun memory => P ⟨state, memory⟩) (Memory.read d)
  write : ∀ state d data, Keeps (fun memory => P ⟨state, memory⟩) (Memory.write d data)
  modify : ∀ f : CpuState → CpuState, CpuState.Inner f → Keeps P (modifyState f)

variable {P : Machine → Prop}

theorem Stable.steady (hP : Stable P) : Steady P where
  read := hP.read
  write := hP.write
  modify f hf := hP.modify f hf.bus

theorem keeps_onMemory {α : Type} {x : Action Memory α}
    (h : ∀ state, Keeps (fun memory => P ⟨state, memory⟩) x) : Keeps P (onMemory x) := by
  rintro ⟨state, memory⟩ hP
  rw [onMemory, Action.final_within]
  exact h state memory hP

theorem Steady.readByte (hP : Steady P) (d : Datum) : Keeps P (Machine.read d) :=
  keeps_onMemory fun state => hP.read state d

theorem Steady.writeByte (hP : Steady P) (d data : Datum) : Keeps P (Machine.write d data) :=
  keeps_onMemory fun state => hP.write state d data

/-- What is put together from the parts keeps what is steady. -/
theorem Composed.keeps {α : Type} {x : Exec α} (h : Composed x) (hP : Steady P) : Keeps P x := by
  induction h with
  | pure a => exact Keeps.pure a
  | demand hx => exact Keeps.demand _
  | look hk hsame ih => exact Keeps.get.bind ih
  | change hf => exact hP.modify _ hf
  | read d => exact hP.readByte d
  | write d data => exact hP.writeByte d data
  | bind hx hk ihx ihk => exact ihx.bind ihk

end Machine

/-- Carrying out an operation keeps what is steady, whatever the operation holds. -/
theorem Operation.execute_keeps {P : Machine → Prop} (hP : Machine.Steady P) (op : Operation)
    (policy : FlagPolicy) : Keeps P (op.execute policy) := by
  intro m h
  rcases execute_cases op policy m with ⟨i, hexecute⟩ | ⟨fault, hrefused⟩
  · rw [hexecute]
    exact (i.execute_composed _ _ policy).keeps hP m h
  · rw [final_of_error hrefused]
    exact h

/-! ## Cycles -/

namespace Machine

variable {P : Machine → Prop} {m : Machine}

/-- A cycle does not see what was logged before it. -/
theorem cycle_quiet (policy : FlagPolicy) (m : Machine) :
    cycle policy m = cycle policy m.quiet := by
  rw [cycle, bind_of_ok (takeLog_eq m), bind_of_ok (takeLog_eq m.quiet)]
  rfl

/-- A cycle keeps what is stable and holds once the log is taken. -/
theorem cycle_keeps (hP : Stable P) (policy : FlagPolicy) (h : P m.quiet) :
    P ((cycle policy).final m) := by
  rw [cycle, Action.final_bind_of_ok (takeLog_eq m)]
  revert h
  generalize m.quiet = m₀
  refine Keeps.get.bind (fun m => ?_) m₀
  refine (hP.steady.readByte _).bind fun opcode => ?_
  refine (keeps_onMemory fun state => Operation.decode_keeps (hP.read state) opcode _).bind
    fun op => ?_
  refine Keeps.bind ?_ fun _ => Keeps.bind ?_ fun _ => Keeps.pure op
  · refine (Keeps.whole _).bind fun base => ?_
    exact (Keeps.whole _).bind fun length => hP.modify _ fun _ => rfl
  · refine (Operation.execute_keeps hP.steady op policy).bind fun _ => ?_
    exact Keeps.get.bind fun m => Keeps.demand _

/-- What stands in the place of the memory stays there. -/
theorem stable_bus (bus : Bus) : Stable fun m => m.state.bus = bus where
  read _ _ _ h := h
  write _ _ _ _ h := h
  modify _ hf m h := (hf m.state).trans h

/-- The program counter stays where it is once it has been moved. -/
theorem steady_pc (pc : Datum) : Steady fun m => m.state.pc = pc where
  read _ _ _ h := h
  write _ _ _ _ h := h
  modify _ hf m h := (hf.pc m.state).trans h

end Machine

end Emu8080
