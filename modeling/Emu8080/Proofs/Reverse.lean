/-
# Emu8080.Proofs.Reverse -- a history can be played in both directions

The snapshots of a history hold all that is needed to go back.  Their accesses,
one list after another, replay the memory from the first instruction to the last;
put back from the last one, what they replaced gives the memory as it was after
any instruction.  With the state of that instruction restored over it, executing
goes the same way again: the same operations at the same places with the same
accesses and results, passed-over opcodes included.
-/
import Emu8080.Proofs.History
import Mathlib.Data.List.Forall2

namespace Emu8080

set_option autoImplicit false

open Emu8080.Action (final_of_ok)

/-! ## The same instruction again -/

/-- Two states hold the same number in every field. -/
structure CpuState.Alike (s t : CpuState) : Prop where
  reg : ∀ r, (s.get r).int? = (t.get r).int?
  sp : s.sp.int? = t.sp.int?
  pc : s.pc.int? = t.pc.int?
  flag : ∀ f, (s.cc.get f).int? = (t.cc.get f).int?
  intEnable : s.intEnable.int? = t.intEnable.int?

/-- Two snapshots record the same instruction: the operation, its place, what the bus saw of it,
and the state after it. -/
structure Snapshot.Alike (s t : Snapshot) : Prop where
  operation : s.operation = t.operation
  initialPc : s.initialPc.int? = t.initialPc.int?
  cycles : s.activity.map Access.cycle = t.activity.map Access.cycle
  state : s.state.Alike t.state

theorem Machine.Shows.alike {m m' : Machine} {c : Chip} (h : m.Shows c) (h' : m'.Shows c) :
    m.state.Alike m'.state where
  reg r := (h.reg r).trans (h'.reg r).symm
  sp := h.sp.trans h'.sp.symm
  pc := h.pc.trans h'.pc.symm
  flag f := (h.flag f).trans (h'.flag f).symm
  intEnable := h.intEnable.trans h'.intEnable.symm

/-- Processors that show one chip come to snapshots that are alike. -/
theorem Cpu.Performs.alike {c c' e e' : Cpu} {chip : Chip} {o : Chip.Outcome} {s t : Snapshot}
    (h : c.Performs o s c') (h' : e.Performs o t e') (hc : c.machine.Shows chip)
    (he : e.machine.Shows chip) : s.Alike t where
  operation := h.operation.trans h'.operation.symm
  initialPc := by
    rw [h.initialPc, h'.initialPc]
    exact (hc.alike he).pc
  cycles := h.cycles.trans h'.cycles.symm
  state := by
    rw [h.state, h'.state]
    exact h.shows.alike h'.shows

namespace Debugger

variable {d e : Debugger} {chip : Chip}

/-- Debuggers that show one chip under the same policies have trajectories that are alike. -/
theorem trajectory_alike (hd : d.cpu.machine.Shows chip) (he : e.cpu.machine.Shows chip)
    (hpolicy : e.cpu.policy = d.cpu.policy) (htrap : e.trapPolicy = d.trapPolicy) (n : Nat) :
    List.Forall₂ Snapshot.Alike (trajectory n e) (trajectory n d) := by
  induction n generalizing d e chip with
  | zero => exact .nil
  | succ n ih =>
    have hsame : e.outcome? chip = d.outcome? chip := by
      rw [outcome?, outcome?, skips, skips, hpolicy, htrap]
    rw [trajectory, trajectory]
    rcases next_cases hd with ⟨o, s, c, ho, hperforms, hexecuted, hnext⟩ | ⟨ho, hexecuted, hnext⟩
    · rcases next_cases he with ⟨o', s', c', ho', hperforms', hexecuted', hnext'⟩ | ⟨ho', -, -⟩
      · obtain rfl : o' = o := Option.some.inj (ho'.symm.trans (hsame.trans ho))
        rw [hexecuted, hexecuted', hnext, hnext']
        have hpolicy' : c'.policy = c.policy :=
          hperforms'.policy.trans (hpolicy.trans hperforms.policy.symm)
        exact .cons (hperforms'.alike hperforms he hd)
          (ih hperforms.shows hperforms'.shows hpolicy' htrap)
      · rw [hsame, ho] at ho'
        cases ho'
    · rcases next_cases he with ⟨o', s', c', ho', -, -, -⟩ | ⟨-, hexecuted', hnext'⟩
      · rw [hsame, ho] at ho'
        cases ho'
      · rw [hexecuted, hexecuted', hnext, hnext']
        exact ih (hd.of_quiet rfl) (he.of_quiet rfl) hpolicy htrap

/-! ## Back and forth -/

/-- What the bus saw of a list of instructions. -/
def accesses (trace : List Snapshot) : List Access := trace.flatMap Snapshot.activity

/-- Back to a state, with what a list of accesses replaced put back past the bus. -/
def rewind (d : Debugger) (s : CpuState) (log : List Access) : Debugger :=
  { d with
    cpu := Cpu.restore s
      { d.cpu with machine := { d.cpu.machine with memory := d.cpu.memory.undo log } } }

/-- A state that is restored over the same bytes shows the same chip. -/
theorem rewind_shows (h : e.cpu.machine.Shows chip) {log : List Access}
    (hmemory : (d.rewind e.cpu.state log).cpu.memory.quiet = e.cpu.memory.quiet) :
    (d.rewind e.cpu.state log).cpu.machine.Shows chip where
  reg := h.reg
  sp := h.sp
  pc := h.pc
  flag := h.flag
  intEnable := h.intEnable
  byte a := by
    have hbyte := congrArg (fun m : Memory => m.byteAt a) hmemory
    exact hbyte.trans (h.byte a)
  bus := rfl
  checked := rfl

/-- The accesses of a trajectory replay its memory. -/
theorem replay_after (hready : d.cpu.machine.Ready) (n : Nat) :
    d.cpu.memory.quiet.replay (accesses (trajectory n d)) = some (d.after n).cpu.memory.quiet := by
  induction n with
  | zero => rfl
  | succ n ih =>
    have hshows := (after_ready hready n).1.shows
    rw [trajectory_succ, after_succ, accesses, List.flatMap_append]
    refine (Memory.replay_append_of_eq ih _).trans ?_
    rcases next_cases hshows with ⟨o, s, c, -, hperforms, hexecuted, hnext⟩ | ⟨-, hexecuted, hnext⟩
    · rw [hexecuted, hnext]
      have hone : [s].flatMap Snapshot.activity = s.activity := List.append_nil _
      exact (congrArg _ hone).trans hperforms.replays
    · rw [hexecuted, hnext]
      rfl

theorem length_trajectory_le (n : Nat) (d : Debugger) : (trajectory n d).length ≤ n := by
  induction n generalizing d with
  | zero => exact Nat.le_refl 0
  | succ n ih =>
    have hrest := ih d.next
    rw [trajectory, List.length_append]
    cases d.executed with
    | none => simp only [Option.toList_none, List.length_nil]; omega
    | some s => simp only [Option.toList_some, List.length_singleton]; omega

/-- The first instructions of a trajectory whose instructions are all executed are so too. -/
theorem length_trajectory_of_le {n i : Nat} (hfull : (trajectory n d).length = n) (hi : i ≤ n) :
    (trajectory i d).length = i := by
  obtain ⟨k, rfl⟩ := Nat.exists_eq_add_of_le hi
  rw [trajectory_add, List.length_append] at hfull
  have hfirst := length_trajectory_le i d
  have hrest := length_trajectory_le k (d.after i)
  omega

theorem drop_trajectory {n i : Nat} (hfull : (trajectory n d).length = n) (hi : i ≤ n) :
    (trajectory n d).drop i = trajectory (n - i) (d.after i) := by
  have hfirst := length_trajectory_of_le hfull hi
  have hparts := trajectory_add d i (n - i)
  rw [Nat.add_sub_cancel' hi] at hparts
  rw [hparts]
  exact List.drop_left' hfirst

/-- The snapshots hold the states along the trajectory. -/
theorem states_after (hready : d.cpu.machine.Ready) {n i : Nat}
    (hfull : (trajectory n d).length = n) (hi : i ≤ n) :
    (d.cpu.state :: (trajectory n d).map Snapshot.state)[i]? = some (d.after i).cpu.state := by
  cases i with
  | zero => rfl
  | succ i =>
    have hfirst := length_trajectory_of_le hfull (Nat.le_of_succ_le hi)
    have hthis := length_trajectory_of_le hfull hi
    have hshows := (after_ready hready i).1.shows
    have hparts := trajectory_add d (i + 1) (n - (i + 1))
    rw [Nat.add_sub_cancel' hi, trajectory_succ] at hparts
    rw [trajectory_succ, List.length_append, hfirst] at hthis
    rcases next_cases hshows with ⟨o, s, c, -, hperforms, hexecuted, hnext⟩ | ⟨-, hexecuted, -⟩
    · have hstate : (d.after (i + 1)).cpu.state = s.state := by
        rw [after_succ, hnext, hperforms.state]
        rfl
      rw [hstate, hparts, hexecuted]
      simp [hfirst]
    · rw [hexecuted, Option.toList_none, List.length_nil] at hthis
      omega

/-- Whatever calls of a debugger with an unbounded history have done, the history can be played in
both directions: its accesses replay the memory from the beginning to the end, and taken back down
to an instruction they give the memory after it, from where, with the state of that instruction
restored, executing gives the rest of the history again. -/
theorem history_reverses (hready : d.cpu.machine.Ready) (hcapacity : d.capacity = none)
    (calls : List Drive) :
    let d' := calls.foldl drive d
    ∃ trace, d'.history.toList = d.history.toList ++ trace
      ∧ trace = trajectory trace.length d
      ∧ d.cpu.memory.quiet.replay (accesses trace) = some d'.cpu.memory.quiet
      ∧ ∀ i s, (d.cpu.state :: trace.map Snapshot.state)[i]? = some s →
          let past := d'.rewind s (accesses (trace.drop i))
          past.cpu.memory.quiet = (d.after i).cpu.memory.quiet
            ∧ List.Forall₂ Snapshot.Alike (trajectory (trace.length - i) past) (trace.drop i) := by
  intro d'
  obtain ⟨n, hadvances⟩ := (Advances.start d).drives hready calls
  have hfull := hadvances.executed
  have hmemory : d'.cpu.memory.quiet = (d.after n).cpu.memory.quiet := hadvances.twin.memory
  refine ⟨trajectory n d, ?_, ?_, ?_, ?_⟩
  · rw [← history_after hready hcapacity, ← hadvances.twin.history]
  · rw [hfull]
  · rw [hmemory]
    exact replay_after hready n
  · intro i s hs past
    have hi : i ≤ n := by
      have hlength := (List.getElem?_eq_some_iff.1 hs).1
      rw [List.length_cons, List.length_map, hfull] at hlength
      omega
    rw [states_after hready hfull hi, Option.some.injEq] at hs
    obtain ⟨hthen, hsettings⟩ := after_ready hready i
    have hdrop := drop_trajectory hfull hi
    have hback : past.cpu.memory.quiet = (d.after i).cpu.memory.quiet := by
      have hreplays := replay_after hthen (n - i)
      rw [← after_add, Nat.add_sub_cancel' hi, ← hmemory, ← hdrop] at hreplays
      show (d'.cpu.memory.undo _).quiet = _
      rw [Memory.quiet_undo]
      exact Memory.undo_replay hreplays
    refine ⟨hback, ?_⟩
    subst hs
    have hshows := rewind_shows hthen.shows hback
    have hend := (after_ready hready n).2
    have hpolicy : past.cpu.policy = (d.after n).cpu.policy := hadvances.twin.policy
    have htrap : past.trapPolicy = (d.after n).trapPolicy := hadvances.twin.trapPolicy
    rw [hdrop, hfull]
    refine trajectory_alike hthen.shows hshows ?_ ?_ (n - i)
    · rw [hpolicy, hend.policy, hsettings.policy]
    · rw [htrap, hend.trapPolicy, hsettings.trapPolicy]

/-- An increment of the memory that counts up its own opcode: the history has it, and it can be
taken back and be executed again. -/
theorem history_reverses_self_modifying :
    let d : Debugger :=
      { cpu := { machine := { memory := Memory.zero.store 0 0x34 } }
        before := {}
        capacity := none }
    let d' := d.drive .step
    ∃ s, d'.history.toList = [s] ∧ d'.cpu.memory.byteAt 0 = 0x35
      ∧ (d'.rewind {} s.activity).cpu.memory.quiet = d.cpu.memory.quiet
      ∧ List.Forall₂ Snapshot.Alike (trajectory 1 (d'.rewind {} s.activity)) [s] := by
  intro d d'
  have hready : d.cpu.machine.Ready := ⟨CpuState.whole_fresh, rfl, rfl⟩
  have hbyte : d.cpu.machine.chip.byte d.cpu.machine.chip.pc = 0x34 :=
    Memory.byteAt_store _ 0 0 0x34
  have hi : Instr.ofOpcode? (d.cpu.machine.chip.byte d.cpu.machine.chip.pc) = some (.inr .mem) := by
    rw [hbyte]
    rfl
  obtain ⟨s, c, hstep, hperforms⟩ := Cpu.step_performs hready.shows hi
  have hdrive : d' = d.stepped s c := final_of_ok (stepInstruction_of_ok hstep)
  have hcounted : c.memory.byteAt 0 = 0x35 := by
    have hpair : d.cpu.machine.chip.pair .hl = 0 := by decide
    have hnext : (d.cpu.machine.chip.next .preserve (.inr .mem)).byte 0
        = (d.cpu.machine.chip.store (d.cpu.machine.chip.pair .hl)
          (d.cpu.machine.chip.byte (d.cpu.machine.chip.pair .hl) + 1)).byte 0 := rfl
    rw [hpair, Chip.byte_store_self] at hnext
    exact (hperforms.shows.byte 0).trans (hnext.trans (congrArg (· + 1) hbyte))
  obtain ⟨trace, hhistory, -, -, hback⟩ := history_reverses hready rfl [.step]
  have hone : d'.history.toList = [s] := by
    rw [hdrive]
    rfl
  obtain rfl : trace = [s] := hhistory.symm.trans hone
  obtain ⟨hmemory, halike⟩ := hback 0 _ rfl
  have hlog : accesses [s] = s.activity := List.append_nil _
  rw [List.drop_zero, hlog] at hmemory halike
  refine ⟨s, hone, ?_, hmemory, halike⟩
  rw [hdrive]
  exact hcounted

end Debugger

end Emu8080
