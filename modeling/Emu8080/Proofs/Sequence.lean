/-
# Emu8080.Proofs.Sequence -- actions one after another

An action that is put together from others is followed from its first part on:
once the outcome of that part is known, `bind_of_ok` leaves what comes after it,
and `bind_of_error` says that nothing does.  The basic steps (looking at the
state, replacing it, asking for an integer) have one equation each, so that no
proof has to open the monad.
-/
import Emu8080.Action

namespace Emu8080.Action

set_option autoImplicit false

variable {σ τ α β : Type} {s t : σ}

/-- After a part that succeeds, the rest runs on what it left. -/
theorem bind_of_ok {x : Action σ α} {a : α} (h : x s = .ok a t) (f : α → Action σ β) :
    (x >>= f) s = f a t := by
  simp only [bind, EStateM.bind, h]

/-- A part that faults ends the whole. -/
theorem bind_of_error {x : Action σ α} {fault : Fault} (h : x s = .error fault t)
    (f : α → Action σ β) : (x >>= f) s = .error fault t := by
  simp only [bind, EStateM.bind, h]

/-- Parts that come to the same are followed by the same. -/
theorem bind_of_eq {x y : Action σ α} (h : x s = y t) (f : α → Action σ β) :
    (x >>= f) s = (y >>= f) t := by
  simp only [bind, EStateM.bind, h]

/-- A sequence that succeeds is one of parts that succeed. -/
theorem bind_eq_ok {x : Action σ α} {f : α → Action σ β} {b : β} (h : (x >>= f) s = .ok b t) :
    ∃ a u, x s = .ok a u ∧ f a u = .ok b t := by
  cases hx : x s with
  | ok a u => exact ⟨a, u, rfl, (bind_of_ok hx f).symm.trans h⟩
  | error _ _ => exact nomatch (bind_of_error hx f).symm.trans h

/-- A sequence faults in its first part, or in what comes after it. -/
theorem bind_eq_error {x : Action σ α} {f : α → Action σ β} {fault : Fault}
    (h : (x >>= f) s = .error fault t) :
    x s = .error fault t ∨ ∃ a u, x s = .ok a u ∧ f a u = .error fault t := by
  cases hx : x s with
  | ok a u => exact .inr ⟨a, u, rfl, (bind_of_ok hx f).symm.trans h⟩
  | error _ _ =>
    cases (bind_of_error hx f).symm.trans h
    exact .inl rfl

theorem get_bind (f : σ → Action σ β) (s : σ) : (get >>= f) s = f s s := rfl

theorem modify_bind (g : σ → σ) (f : PUnit → Action σ β) (s : σ) :
    (modify g >>= f) s = f ⟨⟩ (g s) := rfl

theorem pure_bind_apply (a : α) (f : α → Action σ β) (s : σ) : (pure a >>= f) s = f a s := rfl

theorem demand_bind {x : Except Fault α} {a : α} (h : x = .ok a) (f : α → Action σ β) (s : σ) :
    (demand x >>= f) s = f a s := by
  subst h
  rfl

theorem whole_bind {d : Datum} {n : Int} (h : d.int? = some n) (f : Int → Action σ β) (s : σ) :
    (whole d >>= f) s = f n s :=
  bind_of_ok (whole_of_int? h s) f

theorem demand_eq_ok {x : Except Fault α} {a : α} (h : demand x s = .ok a t) :
    x = .ok a ∧ t = s := by
  cases x with
  | ok b =>
    cases h
    exact ⟨rfl, rfl⟩
  | error _ => cases h

theorem whole_eq_ok {d : Datum} {n : Int} (h : whole d s = .ok n t) : d.int? = some n ∧ t = s := by
  obtain ⟨hwhole, rfl⟩ := demand_eq_ok h
  refine ⟨?_, rfl⟩
  rw [Datum.whole] at hwhole
  cases hint : d.int? with
  | some k =>
    rw [hint] at hwhole
    cases hwhole
    rfl
  | none =>
    rw [hint] at hwhole
    cases hwhole

/-- The outcome of an action on a part, in terms of the outcome on that part. -/
theorem within_eq (focus : σ → τ × (τ → σ)) (x : Action τ α) (s : σ) :
    within focus x s = match x (focus s).1 with
      | .ok a t => .ok a ((focus s).2 t)
      | .error fault t => .error fault ((focus s).2 t) := rfl

/-- The state that an action leaves, whatever comes of it. -/
def final (x : Action σ α) (s : σ) : σ :=
  match x s with
  | .ok _ t => t
  | .error _ t => t

theorem final_of_ok {x : Action σ α} {a : α} (h : x s = .ok a t) : x.final s = t := by
  rw [final, h]

theorem final_of_error {x : Action σ α} {fault : Fault} (h : x s = .error fault t) :
    x.final s = t := by
  rw [final, h]

/-- The value that an action gives, if it does not fault. -/
def value? (x : Action σ α) (s : σ) : Option α :=
  match x s with
  | .ok a _ => some a
  | .error .. => none

theorem value?_of_ok {x : Action σ α} {a : α} (h : x s = .ok a t) : x.value? s = some a := by
  rw [value?, h]

theorem value?_of_error {x : Action σ α} {fault : Fault} (h : x s = .error fault t) :
    x.value? s = none := by
  rw [value?, h]

theorem value?_eq_some_iff {x : Action σ α} {a : α} :
    x.value? s = some a ↔ ∃ t, x s = .ok a t := by
  rw [value?]
  cases x s with
  | ok b t => simp
  | error fault t => simp

/-- An action on a part leaves the rest as it was. -/
theorem final_within (focus : σ → τ × (τ → σ)) (x : Action τ α) (s : σ) :
    (within focus x).final s = (focus s).2 (x.final (focus s).1) := by
  rw [final, within_eq, final]
  cases x (focus s).1 <;> rfl

/-- What only looks at the value of an action leaves the same state. -/
theorem final_map (x : Action σ α) (f : α → β) (s : σ) :
    (x >>= fun a => pure (f a) : Action σ β).final s = x.final s := by
  cases hx : x s with
  | ok a t =>
    have hmap : (x >>= fun a => pure (f a) : Action σ β) s = .ok (f a) t := bind_of_ok hx _
    rw [final_of_ok hmap, final_of_ok hx]
  | error fault t =>
    have hmap : (x >>= fun a => pure (f a) : Action σ β) s = .error fault t := bind_of_error hx _
    rw [final_of_error hmap, final_of_error hx]

end Emu8080.Action
