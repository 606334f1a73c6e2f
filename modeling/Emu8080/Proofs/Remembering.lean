/-
# Emu8080.Proofs.Remembering -- what a debugger has on record

A host calls on a debugger, and between its calls it does what it likes to the
processor: cycles past the debugger, resets, restored states, values stored
anywhere (`Deed`).  The debugger remembers the snapshots of its own calls and
nothing else.  `account` lists these; after any deeds the history is the end of
the account, as much of it as there is room for, and the last snapshot is the
last of the account even if there is room for none (`history_recalls`).

Within a call each round begins where the one before it ended, and counts one
more; that holds of any state, since it is the debugger that moves the program
counter on.
-/
import Emu8080.Proofs.PassOver
import Emu8080.Proofs.Produced
import Mathlib.Data.List.Chain
import Mathlib.Data.List.DropRight

namespace Emu8080

set_option autoImplicit false

open Emu8080.Action (final final_of_ok value?_of_ok value?_of_error)

/-! ## The end of a list -/

/-- The end of a list, as much of it as there is room for. -/
def lastOf {α : Type} (capacity : Option Nat) (list : List α) : List α :=
  match capacity with
  | none => list
  | some n => list.rtake n

variable {α : Type}

/-- Of a list that grows at its end nothing is missed by keeping its end only. -/
theorem lastOf_lastOf_concat (capacity : Option Nat) (list : List α) (a : α) :
    lastOf capacity (lastOf capacity list ++ [a]) = lastOf capacity (list ++ [a]) := by
  cases capacity with
  | none => rfl
  | some n =>
    rw [lastOf, lastOf, lastOf]
    cases n with
    | zero => rw [List.rtake_zero, List.rtake_zero]
    | succ n =>
      have hnested : (list.rtake (n + 1)).rtake n = list.rtake n := by
        simp only [List.rtake_eq_reverse_take_reverse, List.reverse_reverse, List.take_take]
        rw [Nat.min_eq_left (Nat.le_succ n)]
      rw [List.rtake_concat_succ, List.rtake_concat_succ, hnested]

theorem lastOf_nil (capacity : Option Nat) : lastOf capacity ([] : List α) = [] := by
  cases capacity with
  | none => rfl
  | some n => exact List.rtake_nil n

namespace Debugger

variable {d d' : Debugger} {room : Option Nat} {kept snapshots : List Snapshot}

theorem toList_remember (capacity : Option Nat) (history : Array Snapshot) (s : Snapshot) :
    (remember capacity history s).toList = lastOf capacity (history.toList ++ [s]) := by
  cases capacity with
  | none => exact Array.toList_push
  | some n =>
    rw [remember, lastOf, List.rtake, ← Array.toList_push, Array.length_toList]
    split
    next hfits => rw [Nat.sub_eq_zero_of_le hfits, List.drop_zero]
    next hfull =>
      rw [Array.toList_extract, List.extract_eq_take_drop]
      exact List.take_of_length_le (by simp)

/-! ## On record -/

/-- The debugger has room for so many snapshots, and these on record: the end of them in its
history, and the last one. -/
structure Recalls (room : Option Nat) (snapshots : List Snapshot) (d : Debugger) : Prop where
  capacity : d.capacity = room
  history : d.history.toList = lastOf room snapshots
  last : d.last = snapshots.getLast?

theorem Recalls.stepped (h : Recalls room kept d) (s : Snapshot) (c : Cpu) :
    Recalls room (kept ++ [s]) (d.stepped s c) where
  capacity := h.capacity
  history := by
    show (remember d.capacity d.history s).toList = _
    rw [toList_remember, h.capacity, h.history]
    exact lastOf_lastOf_concat room kept s
  last := List.getLast?_concat.symm

/-- A row of rounds adds what it gives, and nothing if it gets stuck. -/
theorem Recalls.rounds (h : Recalls room kept d) (hrounds : Rounds d snapshots d') :
    Recalls room (kept ++ snapshots) d' := by
  induction hrounds generalizing kept with
  | stop d journal =>
    rw [List.append_nil]
    exact ⟨h.capacity, h.history, h.last⟩
  | stuck hstuck =>
    obtain ⟨c, journal, rfl⟩ := hstuck
    rw [List.append_nil]
    exact ⟨h.capacity, h.history, h.last⟩
  | @next d _ _ s rest hgives _ ih =>
    obtain ⟨c, journal, rfl⟩ := hgives.stepped
    have hnext := h.stepped s c
    rw [List.append_cons]
    exact ih ⟨hnext.capacity, hnext.history, hnext.last⟩

/-- A fresh debugger has nothing on record. -/
theorem recalls_attach {cpu : Cpu} {trapPolicy : TrapPolicy} {capacity limit : Datum}
    (h : attach cpu trapPolicy capacity limit = .ok d) :
    ∃ room, capacityOf capacity = .ok room ∧ Recalls room [] d := by
  obtain ⟨room, hroom, hd⟩ := Action.checks_eq_ok_iff.1 h
  cases hd
  exact ⟨room, hroom, rfl, (lastOf_nil room).symm, rfl⟩

/-! ## Deeds -/

/-- What a host does with a debugger: it calls it, acts on the processor in any way, or sets the
breakpoints. -/
inductive Deed : Type 1
  | drive (call : Drive)
  | meddle {α : Type} (x : Action Cpu α)
  | watch (breakpoints : List Breakpoint)

/-- The debugger after a deed, whatever came of it. -/
def undergo (d : Debugger) : Deed → Debugger
  | .drive call => d.drive call
  | .meddle x => (onCpu x).final d
  | .watch breakpoints => { d with breakpoints }

/-- The snapshots that a deed produces through the debugger. -/
def Deed.produced (d : Debugger) : Deed → List Snapshot
  | .drive call => call.produced d
  | .meddle _ | .watch _ => []

/-- The snapshots that were produced through the debugger by these deeds, in order. -/
def account : List Deed → Debugger → List Snapshot
  | [], _ => []
  | deed :: rest, d => deed.produced d ++ account rest (d.undergo deed)

theorem Recalls.undergo (h : Recalls room kept d) (deed : Deed) :
    Recalls room (kept ++ deed.produced d) (d.undergo deed) := by
  cases deed with
  | drive call => exact h.rounds (drive_rounds d call)
  | meddle x =>
    rw [Deed.produced, List.append_nil, Debugger.undergo, onCpu, Action.final_within]
    exact ⟨h.capacity, h.history, h.last⟩
  | watch breakpoints =>
    rw [Deed.produced, List.append_nil]
    exact ⟨h.capacity, h.history, h.last⟩

/-- Deeds add what they produce through the debugger, and nothing else. -/
theorem Recalls.deeds (h : Recalls room kept d) (deeds : List Deed) :
    Recalls room (kept ++ account deeds d) (deeds.foldl Debugger.undergo d) := by
  induction deeds generalizing d kept with
  | nil =>
    rw [account, List.append_nil]
    exact h
  | cons deed rest ih =>
    rw [account, ← List.append_assoc]
    exact ih (h.undergo deed)

/-! ## Within a call -/

/-- The snapshot `t` is that of the instruction after `s`. -/
structure Follows (s t : Snapshot) : Prop where
  initialPc : t.initialPc = s.state.pc
  count : t.count = s.count + 1

/-- The program counter of a snapshot is the one before its operation, moved on by the length. -/
def Placed (s : Snapshot) : Prop :=
  ∃ n k : Int, s.initialPc.int? = some n ∧ s.operation.length.int? = some k
    ∧ s.state.pc = .int ((n + k) % 65536)

theorem Rounds.placed (h : Rounds d snapshots d') : ∀ s ∈ snapshots, Placed s := by
  induction h with
  | stop | stuck => exact fun s hs => absurd hs List.not_mem_nil
  | next hgives _ ih =>
    intro t ht
    rcases List.mem_cons.1 ht with rfl | hrest
    · exact hgives.tied.place
    · exact ih t hrest

/-- A row begins where the debugger is. -/
theorem Rounds.head (h : Rounds d snapshots d') :
    ∀ s ∈ snapshots.head?, s.initialPc = d.cpu.state.pc ∧ s.count = d.cpu.count + 1 := by
  cases h with
  | stop | stuck => exact fun s hs => nomatch hs
  | next hgives _ =>
    intro s hs
    cases hs
    exact ⟨hgives.tied.initialPc, hgives.tied.count⟩

theorem Rounds.chain (h : Rounds d snapshots d') : snapshots.IsChain Follows := by
  induction h with
  | stop | stuck => exact .nil
  | next hgives hrest ih =>
    refine ih.cons fun t ht => ?_
    obtain ⟨hpc, hcount⟩ := hrest.head t ht
    refine ⟨?_, ?_⟩
    · rw [hpc, hgives.tied.state]
    · rw [hcount, hgives.tied.counted]

/-! ## The account -/

/-- At an opcode without an implementation a step produces nothing, and a run produces nothing
unless it passes over it. -/
theorem produced_of_trap {n : Int} (hpc : d.cpu.state.pc.int? = some n)
    (hopcode : Instr.Unimplemented (d.cpu.memory.byteAt (UInt16.ofInt n))) :
    Drive.step.produced d = []
      ∧ (d.trapPolicy ≠ .skip → ∀ (σ : Type) (r : RunCall σ), r.produced d = []) := by
  have hstep := step_of_unimplemented hpc rfl hopcode
  refine ⟨?_, ?_⟩
  · rw [Drive.produced, value?_of_error (stepInstruction_of_error hstep)]
    rfl
  · intro hpolicy σ r
    rw [RunCall.produced]
    cases d.boundFor r.bound with
    | error fault => rfl
    | ok limit =>
      cases hends : endsAt limit 0 d with
      | true => exact trail_of_ends hends r.fuel
      | false =>
        cases hcase : d.trapPolicy with
        | halt =>
          obtain ⟨journal, hround⟩ := round_halt hcase hstep
          exact trail_of_trapped hends hround r.fuel
        | raise => exact trail_of_error hends (round_raise hcase hstep) r.fuel
        | skip => exact absurd hcase hpolicy

/-- Whatever a host does with a debugger from the start on, the history holds the end of what was
produced through it, as much of it as there is room for, and the last snapshot is the last of that.
A trap produces nothing unless it is passed over.  Within a run, from any state, each snapshot
follows the one before it, and each has moved the program counter on by the length of its
operation. -/
theorem history_recalls {cpu : Cpu} {trapPolicy : TrapPolicy} {capacity limit : Datum}
    {d : Debugger} (hd : attach cpu trapPolicy capacity limit = .ok d) (deeds : List Deed) :
    let d' := deeds.foldl undergo d
    (∃ room, capacityOf capacity = .ok room
      ∧ d'.history.toList = lastOf room (account deeds d)
      ∧ d'.last = (account deeds d).getLast?)
    ∧ (∀ n, d'.cpu.state.pc.int? = some n →
        Instr.Unimplemented (d'.cpu.memory.byteAt (UInt16.ofInt n)) →
        Drive.step.produced d' = []
          ∧ (d'.trapPolicy ≠ .skip → ∀ (σ : Type) (r : RunCall σ), r.produced d' = []))
    ∧ ∀ (σ : Type) (r : RunCall σ),
        (∀ s ∈ r.produced d', Placed s) ∧ (r.produced d').IsChain Follows := by
  intro d'
  refine ⟨?_, ?_, ?_⟩
  · obtain ⟨room, hroom, hfresh⟩ := recalls_attach hd
    have hrecalls := hfresh.deeds deeds
    exact ⟨room, hroom, hrecalls.history, hrecalls.last⟩
  · exact fun n hpc hopcode => produced_of_trap hpc hopcode
  · intro σ r
    have hrounds : Rounds d' (r.produced d') _ := drive_rounds d' (.run r)
    exact ⟨hrounds.placed, hrounds.chain⟩

/-- A debugger without room for a history: after an idle instruction, a reset behind its back and
another idle instruction, its history is empty, and its last snapshot is the second of two that
were produced, both with the first number. -/
theorem history_recalls_without_room :
    let d : Debugger := { cpu := {}, capacity := some 0, before := {} }
    let deeds : List Deed := [.drive .step, .meddle (modify Cpu.reset), .drive .step]
    let d' := deeds.foldl undergo d
    attach {} .halt (.int 0) .null = .ok d
      ∧ ∃ s t : Snapshot, account deeds d = [s, t] ∧ s.count = 1 ∧ t.count = 1
        ∧ d'.history.toList = [] ∧ d'.last = some t := by
  intro d deeds d'
  have hd : attach {} .halt (.int 0) .null = .ok d := rfl
  have hidle {c : Cpu} (h : c.state = {}) (hzero : ∀ a, c.memory.byteAt a = 0) :
      ∃ s c', Cpu.step c = .ok s c' ∧ s.count = c.count + 1 ∧ ∀ a, c'.memory.byteAt a = 0 := by
    have hready : c.machine.Ready := by
      have hfresh : Machine.Ready { c.machine with state := {} } :=
        ⟨CpuState.whole_fresh, rfl, rfl⟩
      exact hfresh.of_state h
    exact ⟨_, _, Cpu.step_of_ok (Machine.cycle_of_nop hready (hzero _) c.policy), rfl, hzero⟩
  obtain ⟨s, c, hs, hscount, hzero⟩ := hidle (c := d.cpu) rfl Memory.byteAt_zero
  obtain ⟨t, c', ht, htcount, -⟩ := hidle (c := c.reset) rfl hzero
  let e : Debugger := { d.stepped s c with cpu := c.reset }
  have hfirst := stepInstruction_of_ok hs
  have hsecond : stepInstruction e = .ok t (e.stepped t c') := stepInstruction_of_ok ht
  have hdrive : d.drive .step = d.stepped s c := final_of_ok hfirst
  have haccount : account deeds d = [s, t] := by
    show (stepInstruction.value? d).toList
      ++ account [.meddle (modify Cpu.reset), .drive .step] (d.drive .step) = _
    rw [hdrive, value?_of_ok hfirst]
    show [s] ++ ([] ++ ((stepInstruction.value? e).toList ++ [])) = _
    rw [value?_of_ok hsecond]
    rfl
  obtain ⟨⟨room, hroom, hhistory, hlast⟩, -⟩ := history_recalls hd deeds
  cases hroom
  rw [haccount] at hhistory hlast
  exact ⟨hd, s, t, haccount, hscount, htcount, hhistory, hlast⟩

end Debugger

end Emu8080
