/-
# Emu8080.Proofs.Replay -- a log tells what happened to the memory

A log of accesses can be read in two directions.  `Memory.replay` carries the
accesses out on a memory and refuses one that does not fit: a read has to find
its data there, and a write the byte it says it replaced.  `Memory.undo` puts the
replaced bytes back, the latest first.  Taking back what was replayed gives the
memory before it (`undo_replay`).

`Memory.Logged` says that the log of a memory replays its way from another one.
Reads and writes keep it, so a cycle does: its log, which it begins itself, leads
from the memory before it to the memory after it, also when it faults.
-/
import Emu8080.Proofs.Keeping

namespace Emu8080

set_option autoImplicit false

open Emu8080.Action (Keeps final)

namespace Memory

/-- The same bytes with nothing in the log. -/
def quiet (m : Memory) : Memory := { m with log := [] }

/-- Carry out accesses that were logged, as long as they fit. -/
def replay (m : Memory) : List Access → Option Memory
  | [] => some m
  | .read a v :: rest => if m.byteAt a = v then m.replay rest else none
  | .write a data previous :: rest =>
      match byteOf data with
      | .ok v => if m.byteAt a = previous then (m.store a v).replay rest else none
      | .error _ => none

/-- Put back the byte that an access replaced. -/
def takeBack (m : Memory) : Access → Memory
  | .read .. => m
  | .write a _ previous => m.store a previous

/-- Put back what a list of accesses replaced, the latest first. -/
def undo (m : Memory) (log : List Access) : Memory :=
  log.foldr (fun access later => later.takeBack access) m

variable {m m' start : Memory} {log rest : List Access}

/-- Storing the byte that was there gives the memory that was there. -/
theorem store_store_byteAt (m : Memory) (a : UInt16) (v : UInt8) :
    (m.store a v).store a (m.byteAt a) = m := by
  have hbytes :
      (m.bytes.set a.toNat v a.toNat_lt).set a.toNat (m.byteAt a) a.toNat_lt = m.bytes := by
    ext i hi
    by_cases h : a.toNat = i
    · subst h
      simp [byteAt]
    · simp [h]
  simp only [store, hbytes]

/-! ## Forwards -/

theorem replay_append (m : Memory) (log rest : List Access) :
    m.replay (log ++ rest) = (m.replay log).bind fun m' => m'.replay rest := by
  induction log generalizing m with
  | nil => rfl
  | cons access log ih =>
    cases access with
    | read a v =>
      simp only [List.cons_append, replay]
      split
      · exact ih m
      · rfl
    | write a data previous =>
      simp only [List.cons_append, replay]
      cases byteOf data with
      | error fault => rfl
      | ok v =>
        dsimp only
        split
        · exact ih (m.store a v)
        · rfl

theorem replay_append_of_eq (h : m.replay log = some m') (rest : List Access) :
    m.replay (log ++ rest) = m'.replay rest := by
  rw [replay_append, h, Option.bind_some]

/-! ## Backwards -/

/-- What was replayed is taken back. -/
theorem undo_replay (h : m.replay log = some m') : m'.undo log = m := by
  induction log generalizing m with
  | nil =>
    rw [replay, Option.some.injEq] at h
    exact h.symm
  | cons access log ih =>
    cases access with
    | read a v =>
      simp only [replay] at h
      split at h
      · exact ih h
      · exact nomatch h
    | write a data previous =>
      simp only [replay] at h
      cases hdata : byteOf data with
      | error fault => simp [hdata] at h
      | ok v =>
        simp only [hdata] at h
        split at h
        · rename_i hprevious
          have hrest : m'.undo log = m.store a v := ih h
          show (m'.undo log).store a previous = m
          rw [hrest, ← hprevious, store_store_byteAt]
        · exact nomatch h

/-- The log of the memory itself takes no part in taking back. -/
theorem quiet_undo (m : Memory) (log : List Access) : (m.undo log).quiet = m.quiet.undo log := by
  induction log with
  | nil => rfl
  | cons access log ih =>
    cases access with
    | read a v => exact ih
    | write a data previous => exact congrArg (fun memory => memory.store a previous) ih

/-! ## Logs -/

/-- The log of a memory leads to it from another memory. -/
def Logged (start m : Memory) : Prop := start.quiet.replay m.log = some m.quiet

theorem Logged.read (start : Memory) (d : Datum) : Keeps (Logged start) (Memory.read d) := by
  intro m h
  unfold Memory.read
  cases addressOf d with
  | error fault => exact h
  | ok a =>
    have hread : m.quiet.replay [.read a (m.byteAt a)] = some m.quiet := if_pos rfl
    exact (replay_append_of_eq h _).trans hread

theorem Logged.write (start : Memory) (d data : Datum) :
    Keeps (Logged start) (Memory.write d data) := by
  intro m h
  unfold Memory.write
  cases addressOf d with
  | error fault => exact h
  | ok a =>
    cases hdata : byteOf data with
    | error fault => exact h
    | ok v =>
      have hwrite : m.quiet.replay [.write a data (m.byteAt a)] = some (m.store a v).quiet := by
        simp only [replay, hdata]
        exact if_pos rfl
      exact (replay_append_of_eq h _).trans hwrite

end Memory

namespace Machine

theorem stable_logged (start : Memory) : Stable fun m => start.Logged m.memory where
  read _ d := Memory.Logged.read start d
  write _ d data := Memory.Logged.write start d data
  modify _ _ _ h := h

/-- The log that a cycle leaves leads from the memory before it to the memory after it. -/
theorem cycle_logged (policy : FlagPolicy) (m : Machine) :
    m.memory.Logged ((cycle policy).final m).memory :=
  cycle_keeps (stable_logged m.memory) policy rfl

end Machine

end Emu8080
