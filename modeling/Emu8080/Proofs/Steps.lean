/-
# Emu8080.Proofs.Steps -- steps in a row

`Machine.steps` takes a number of steps one after another and lists their
operations.  A fault ends it, so that the list is there only if all of them
succeed.  Steps in a row can be put together (`steps_append`) and cut short
(`steps_take`).

Two machines can be followed side by side: where every step of the first is
matched by a step of the second that does the same operation and keeps them
related, so are any number of steps (`steps_follow`).
-/
import Emu8080.Proofs.Step

namespace Emu8080

set_option autoImplicit false

open Emu8080.Action (bind_of_ok bind_of_error)

/-- The instruction of an operation, if its opcode has one. -/
def Operation.instr? (op : Operation) : Option Instr :=
  match op.opcode with
  | .ok code => if 0 ≤ code ∧ code < 256 then Instr.ofOpcode? (UInt8.ofInt code) else none
  | .error _ => none

/-- The instruction of a decoded operation is found again. -/
theorem Operation.instr?_ofInstr {opcode : UInt8} {i : Instr}
    (h : Instr.ofOpcode? opcode = some i) (bytes : List UInt8) :
    (Operation.ofInstr opcode i bytes).instr? = some i := by
  have hbyte := opcode.toNat_lt
  have hcode : 0 ≤ (opcode.toNat : Int) ∧ (opcode.toNat : Int) < 256 := by omega
  simp only [instr?, opcode_ofInstr, if_pos hcode, ofInt_byte_toNat, h]

namespace Machine

/-- A number of steps one after another, with their operations. -/
def steps (policy : FlagPolicy) : Nat → Exec (List Operation)
  | 0 => return []
  | n + 1 => do
      let op ← step policy
      return op :: (← steps policy n)

variable {m m' m₁ m₂ : Machine} {policy : FlagPolicy} {op : Operation} {ops rest : List Operation}
  {n k : Nat} {c : Chip}

/-- At an instruction a step succeeds, and shows the next chip. -/
theorem Shows.exists_step (h : m.Shows c) {i : Instr}
    (hi : Instr.ofOpcode? (c.byte c.pc) = some i) (policy : FlagPolicy) :
    ∃ op m', step policy m = .ok op m' ∧ m'.Shows (c.next policy i) := by
  obtain ⟨m', hstep, h'⟩ := step_records h hi policy
  exact ⟨_, m', hstep, h'.toShows⟩

theorem steps_cons (h : step policy m = .ok op m₁) (hrest : steps policy n m₁ = .ok rest m') :
    steps policy (n + 1) m = .ok (op :: rest) m' := by
  rw [steps, bind_of_ok h, bind_of_ok hrest]
  rfl

/-- Steps that succeed begin with a step that does. -/
theorem steps_succ_eq_ok (h : steps policy (n + 1) m = .ok ops m') :
    ∃ op m₁ rest, ops = op :: rest ∧ step policy m = .ok op m₁
      ∧ steps policy n m₁ = .ok rest m' := by
  rw [steps] at h
  cases hstep : step policy m with
  | error fault m₁ =>
    rw [bind_of_error hstep] at h
    cases h
  | ok op m₁ =>
    rw [bind_of_ok hstep] at h
    cases hrest : steps policy n m₁ with
    | error fault m₂ =>
      rw [bind_of_error hrest] at h
      cases h
    | ok rest m₂ =>
      rw [bind_of_ok hrest] at h
      cases h
      exact ⟨op, m₁, rest, rfl, rfl, hrest⟩

/-- Steps after steps. -/
theorem steps_append (h : steps policy n m = .ok ops m₁) (hrest : steps policy k m₁ = .ok rest m₂) :
    steps policy (n + k) m = .ok (ops ++ rest) m₂ := by
  induction n generalizing m ops with
  | zero =>
    cases h
    rw [Nat.zero_add]
    exact hrest
  | succ n ih =>
    obtain ⟨op, m', ops', rfl, hstep, hsteps⟩ := steps_succ_eq_ok h
    rw [Nat.succ_add]
    exact steps_cons hstep (ih hsteps)

/-- The first of some steps that succeed do so too. -/
theorem steps_take (h : steps policy n m = .ok ops m') (hk : k ≤ n) :
    ∃ m₁, steps policy k m = .ok (ops.take k) m₁ := by
  induction k generalizing n m ops with
  | zero => exact ⟨m, rfl⟩
  | succ k ih =>
    cases n with
    | zero => omega
    | succ n =>
      obtain ⟨op, m₁, rest, rfl, hstep, hsteps⟩ := steps_succ_eq_ok h
      obtain ⟨m₂, htaken⟩ := ih hsteps (Nat.le_of_succ_le_succ hk)
      exact ⟨m₂, steps_cons hstep htaken⟩

/-- What one step keeps between two machines, under two policies and for some operations, any
number of steps with such operations keeps. -/
theorem steps_follow {R : Machine → Machine → Prop} {Allowed : Operation → Prop}
    {policy' : FlagPolicy}
    (hfollow : ∀ m₁ m₂ op m₁', R m₁ m₂ → step policy m₁ = .ok op m₁' → Allowed op →
      ∃ m₂', step policy' m₂ = .ok op m₂' ∧ R m₁' m₂')
    (hR : R m₁ m₂) (h : steps policy n m₁ = .ok ops m') (hops : ∀ op ∈ ops, Allowed op) :
    ∃ m₂', steps policy' n m₂ = .ok ops m₂' ∧ R m' m₂' := by
  induction n generalizing m₁ m₂ ops with
  | zero =>
    cases h
    exact ⟨m₂, rfl, hR⟩
  | succ n ih =>
    obtain ⟨op, m₁', rest, rfl, hstep, hrest⟩ := steps_succ_eq_ok h
    obtain ⟨m₂', hstep', hR'⟩ := hfollow m₁ m₂ op m₁' hR hstep (hops op List.mem_cons_self)
    obtain ⟨m₂'', hrest', hR''⟩ :=
      ih hR' hrest fun op hop => hops op (List.mem_cons_of_mem _ hop)
    exact ⟨m₂'', steps_cons hstep' hrest', hR''⟩

end Machine

end Emu8080
