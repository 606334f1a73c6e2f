/-
# Emu8080.Action -- state changes that may be refused

An action on `σ` changes a state and either gives a value or faults.  What it
changed before a fault stays changed: a refused instruction keeps the accesses
it has already made.

`demand` turns a refusal that touches no state into an action, and `within` runs
an action on one part of a larger state.
-/
import Emu8080.Fault

namespace Emu8080

set_option autoImplicit false

/-- A state change that gives a value or faults. -/
abbrev Action (σ α : Type) := EStateM Fault σ α

namespace Action

variable {σ τ α : Type}

/-- A value or refusal that touches no state. -/
def demand (x : Except Fault α) : Action σ α :=
  match x with
  | .ok a => pure a
  | .error fault => throw fault

/-- The integer a value counts as. -/
def whole (d : Datum) : Action σ Int := demand d.whole

/-- Run an action on a part of the state.  `focus` takes a state apart into the part and a
way to put the part back, so that nothing else holds the part while the action runs. -/
def within (focus : σ → τ × (τ → σ)) (x : Action τ α) : Action σ α := fun s =>
  let (part, restore) := focus s
  match x part with
  | .ok a t => .ok a (restore t)
  | .error fault t => .error fault (restore t)

/-- Run an action and look at what came of it, keeping what it changed. -/
def attempt (x : Action σ α) : Action σ (Except Fault α) := fun s =>
  match x s with
  | .ok a t => .ok (.ok a) t
  | .error fault t => .ok (.error fault) t

/-- A chain of checks succeeds when its first check and the rest of it do. -/
theorem checks_eq_ok_iff {α β : Type} {x : Except Fault α} {f : α → Except Fault β} {b : β} :
    (x >>= f) = .ok b ↔ ∃ a, x = .ok a ∧ f a = .ok b := by
  cases x with
  | error fault => simp [bind, Except.bind]
  | ok a => simp [bind, Except.bind]

@[simp] theorem demand_ok (a : α) (s : σ) : demand (.ok a) s = .ok a s := rfl

theorem whole_of_int? {d : Datum} {n : Int} (h : d.int? = some n) (s : σ) :
    whole d s = .ok n s := by
  simp only [whole, Datum.whole, h]
  rfl

theorem within_of_ok {focus : σ → τ × (τ → σ)} {x : Action τ α} {s : σ} {t : τ} {a : α}
    (h : x (focus s).1 = .ok a t) : within focus x s = .ok a ((focus s).2 t) := by
  simp only [within, h]

theorem within_of_error {focus : σ → τ × (τ → σ)} {x : Action τ α} {s : σ} {t : τ}
    {fault : Fault} (h : x (focus s).1 = .error fault t) :
    within focus x s = .error fault ((focus s).2 t) := by
  simp only [within, h]

end Action

end Emu8080
