/-
# Emu8080.Proofs.Faulting -- where traps come from

A state may hold anything, so an instruction can fault in many ways: on a value
of the wrong kind, on data that is no byte, on a memory that is not there.  None
of these is a trap.  `Action.Untrapped` follows that through a program as
`Action.Keeps` follows a property of states, and `Machine.Composed.untrapped`
gives it for every instruction, whatever the state and the operation hold.

A cycle that traps is thus one whose opcode has no implementation, at an integer
program counter, with nothing done but the read (`Cpu.step_trap`): the converse
of what `Proofs.Trap` says.
-/
import Emu8080.Proofs.Composed
import Emu8080.Proofs.Run

namespace Emu8080

set_option autoImplicit false

open Emu8080.Action (bind_of_ok bind_eq_ok bind_eq_error)

theorem Fault.not_isTrap {fault : Fault}
    (h : ∀ opcode pc mnemonic, fault ≠ .unimplemented opcode pc mnemonic) : ¬fault.IsTrap := by
  rintro ⟨opcode, pc, mnemonic, htrap⟩
  exact h opcode pc mnemonic htrap

/-- That a value cannot be written is no trap either. -/
theorem Fault.not_isTrap_showing {fault : Fault}
    (h : ∀ opcode pc mnemonic, fault ≠ .unimplemented opcode pc mnemonic) (given : Datum) :
    ¬(showing given fault).IsTrap := by
  rcases showing_cases given fault with heq | heq
  · rw [heq]
    exact not_isTrap h
  · rw [heq]
    exact not_isTrap (by simp)

namespace Action

variable {σ τ α β : Type}

/-- The action does not trap, in whatever other ways it may fault. -/
def Untrapped (x : Action σ α) : Prop := ∀ s fault t, x s = .error fault t → ¬fault.IsTrap

theorem Untrapped.pure (a : α) : Untrapped (pure a : Action σ α) := fun _ _ _ h => nomatch h

theorem Untrapped.get : Untrapped (get : Action σ σ) := fun _ _ _ h => nomatch h

theorem Untrapped.modify (f : σ → σ) : Untrapped (modify f : Action σ PUnit) :=
  fun _ _ _ h => nomatch h

theorem Untrapped.demand {x : Except Fault α} (h : ∀ fault, x = .error fault → ¬fault.IsTrap) :
    Untrapped (demand x : Action σ α) := by
  intro s fault t hdemand
  cases x with
  | ok a => cases hdemand
  | error _ =>
    cases hdemand
    exact h _ rfl

theorem Untrapped.bind {x : Action σ α} {f : α → Action σ β} (hx : Untrapped x)
    (hf : ∀ a, Untrapped (f a)) : Untrapped (x >>= f) := by
  intro s fault t h
  rcases bind_eq_error h with hfirst | ⟨a, u, -, hrest⟩
  · exact hx s fault t hfirst
  · exact hf a u fault t hrest

theorem Untrapped.within (focus : σ → τ × (τ → σ)) {x : Action τ α} (h : Untrapped x) :
    Untrapped (within focus x) := by
  intro s fault t hwithin
  rw [within_eq] at hwithin
  cases hrun : x (focus s).1 with
  | ok a u =>
    rw [hrun] at hwithin
    cases hwithin
  | error _ _ =>
    rw [hrun] at hwithin
    cases hwithin
    exact h _ _ _ hrun

theorem Untrapped.whole (d : Datum) : Untrapped (whole d : Action σ Int) := by
  refine Untrapped.demand fun fault h => ?_
  rw [Datum.whole] at h
  cases hint : d.int? with
  | some n =>
    rw [hint] at h
    cases h
  | none =>
    rw [hint] at h
    cases h
    exact Fault.not_isTrap (by simp)

end Action

open Emu8080.Action (Untrapped)

/-! ## Memory -/

theorem addressOf_untrapped (d : Datum) : ∀ fault, addressOf d = .error fault → ¬fault.IsTrap := by
  intro fault h
  rw [addressOf] at h
  cases hint : d.int? with
  | some n =>
    rw [hint] at h
    cases h
  | none =>
    rw [hint] at h
    cases h
    exact Fault.not_isTrap_showing (by simp) d

theorem byteOf_untrapped (d : Datum) : ∀ fault, byteOf d = .error fault → ¬fault.IsTrap := by
  intro fault h
  rw [byteOf] at h
  cases hbyte : d.within? 0xFF with
  | some n =>
    rw [hbyte] at h
    cases h
  | none =>
    rw [hbyte] at h
    cases h
    exact Fault.not_isTrap_showing (by simp) d

namespace Memory

theorem read_untrapped (d : Datum) : Untrapped (read d) := by
  refine (Untrapped.demand (addressOf_untrapped d)).bind fun a => ?_
  refine Untrapped.get.bind fun m => ?_
  exact (Untrapped.modify _).bind fun _ => Untrapped.pure _

theorem write_untrapped (d data : Datum) : Untrapped (write d data) := by
  refine (Untrapped.demand (addressOf_untrapped d)).bind fun a => ?_
  refine (Untrapped.demand (byteOf_untrapped data)).bind fun v => ?_
  exact Untrapped.get.bind fun m => Untrapped.modify _

end Memory

/-- Operand bytes are read without a trap. -/
theorem Operation.readBytes_untrapped (pc : Datum) (offset count : Nat) :
    Untrapped (readBytes pc offset count) := by
  induction count generalizing offset with
  | zero => exact Untrapped.pure []
  | succ count ih =>
    refine (Untrapped.whole pc).bind fun base => ?_
    refine (Memory.read_untrapped _).bind fun v => ?_
    exact (ih (offset + 1)).bind fun rest => Untrapped.pure (v :: rest)

/-! ## Machines -/

namespace Machine

theorem onMemory_untrapped {α : Type} {x : Action Memory α} (h : Untrapped x) :
    Untrapped (onMemory x) := by
  unfold onMemory
  exact Untrapped.within _ h

theorem read_untrapped (d : Datum) : Untrapped (read d) :=
  onMemory_untrapped (Memory.read_untrapped d)

theorem write_untrapped (d data : Datum) : Untrapped (write d data) :=
  onMemory_untrapped (Memory.write_untrapped d data)

theorem modifyState_untrapped (f : CpuState → CpuState) : Untrapped (modifyState f) :=
  Untrapped.modify _

/-- What is put together from the parts does not trap. -/
theorem Composed.untrapped {α : Type} {x : Exec α} (h : Composed x) : Untrapped x := by
  induction h with
  | pure a => exact Untrapped.pure a
  | demand hx =>
    refine Untrapped.demand ?_
    rintro fault hfault ⟨opcode, pc, mnemonic, rfl⟩
    exact hx opcode pc mnemonic hfault
  | look hk hsame ih => exact Untrapped.get.bind ih
  | change hf => exact modifyState_untrapped _
  | read d => exact read_untrapped d
  | write d data => exact write_untrapped d data
  | bind hx hk ihx ihk => exact ihx.bind ihk

end Machine

/-! ## Cycles -/

/-- The check names what is out of its domain, and never traps. -/
theorem CpuState.validate_untrapped (s : CpuState) :
    ∀ fault, s.validate = .error fault → ¬fault.IsTrap := by
  intro fault h
  rw [validate] at h
  split at h
  · cases hfault : s.fault? with
    | none => simp [hfault] at h
    | some cause =>
      simp only [hfault, Except.error.injEq] at h
      subst h
      simp only [fault?, Option.orElse_eq_orElse, Option.orElse_eq_or, Option.or_eq_some_iff,
        Option.map_eq_some_iff] at hfault
      rcases hfault with ⟨entry, -, rfl⟩ | ⟨-, ⟨f, -, rfl⟩ | ⟨-, henable⟩⟩
      · exact Fault.not_isTrap_showing (by simp) _
      · exact Fault.not_isTrap_showing (by simp) _
      · split at henable
        · cases henable
        · cases henable
          exact Fault.not_isTrap_showing (by simp) _
  · cases h
    exact Fault.not_isTrap (by simp)

theorem Operation.decode_untrapped {opcode : UInt8} {i : Instr}
    (hi : Instr.ofOpcode? opcode = some i) (pc : Datum) : Untrapped (decode opcode pc) := by
  simp only [decode, hi]
  exact (readBytes_untrapped pc 1 _).bind fun bytes => Untrapped.pure _

/-- What is decoded is the operation of the instruction, with some operand bytes. -/
theorem Operation.eq_ofInstr_of_decode {opcode : UInt8} {i : Instr}
    (hi : Instr.ofOpcode? opcode = some i) {pc : Datum} {op : Operation} {memory memory' : Memory}
    (h : decode opcode pc memory = .ok op memory') : ∃ bytes, op = ofInstr opcode i bytes := by
  simp only [decode, hi] at h
  obtain ⟨bytes, memory₁, -, hop⟩ := bind_eq_ok h
  cases hop
  exact ⟨bytes, rfl⟩

namespace Machine

theorem advance_untrapped (op : Operation) (pc : Datum) : Untrapped (advance op pc) := by
  refine (Untrapped.whole pc).bind fun base => ?_
  exact (Untrapped.whole _).bind fun length => modifyState_untrapped _

theorem complete_untrapped {opcode : UInt8} {i : Instr} (hi : Instr.ofOpcode? opcode = some i)
    (bytes : List UInt8) (policy : FlagPolicy) :
    Untrapped (complete (.ofInstr opcode i bytes) policy) := by
  have hexecute := funext (execute_ofInstr hi bytes policy)
  rw [complete, hexecute]
  refine (i.execute_composed _ _ policy).untrapped.bind fun _ => ?_
  exact Untrapped.get.bind fun m => Untrapped.demand m.state.validate_untrapped

variable {m m' : Machine} {policy : FlagPolicy} {fault : Fault}

/-- An action on the memory that succeeds leaves the state alone. -/
theorem onMemory_eq_ok {α : Type} {x : Action Memory α} {a : α} (h : onMemory x m = .ok a m') :
    ∃ memory, x m.memory = .ok a memory ∧ m' = { m with memory } := by
  cases hx : x m.memory with
  | ok b memory =>
    cases (onMemory_of_ok hx).symm.trans h
    exact ⟨memory, rfl, rfl⟩
  | error _ _ => cases (onMemory_of_error hx).symm.trans h

/-- What is read is the byte at an address, and the address is an integer. -/
theorem eq_byteAt_of_read {d : Datum} {v : UInt8} (h : read d m = .ok v m') :
    ∃ n, d.int? = some n ∧ v = m.memory.byteAt (UInt16.ofInt n) := by
  obtain ⟨memory, hread, -⟩ := onMemory_eq_ok h
  rw [Memory.read, addressOf] at hread
  cases hint : d.int? with
  | none =>
    rw [hint] at hread
    cases hread
  | some n =>
    rw [hint] at hread
    cases hread
    exact ⟨n, rfl, rfl⟩

/-- A cycle faults where its opcode is read, or goes on from an opcode that was read. -/
theorem cycle_eq_error (h : cycle policy m = .error fault m') :
    ¬fault.IsTrap ∨ ∃ n m₁, m.state.pc.int? = some n
      ∧ (do
          let op ← onMemory
            (Operation.decode (m.memory.byteAt (UInt16.ofInt n)) m.state.pc)
          advance op m.state.pc
          complete op policy
          return op : Exec Operation) m₁ = .error fault m' := by
  rw [cycle, bind_of_ok (takeLog_eq m), Action.get_bind] at h
  rcases bind_eq_error h with hread | ⟨opcode, m₁, hread, hrest⟩
  · exact .inl (read_untrapped _ _ _ _ hread)
  · obtain ⟨n, hn, hopcode⟩ := eq_byteAt_of_read hread
    have hbyte : opcode = m.memory.byteAt (UInt16.ofInt n) := hopcode
    subst hbyte
    exact .inr ⟨n, m₁, hn, hrest⟩

/-- At an opcode with an implementation nothing traps once it is read. -/
theorem decoded_untrapped {opcode : UInt8} {i : Instr} (hi : Instr.ofOpcode? opcode = some i)
    (pc : Datum) (policy : FlagPolicy) :
    Untrapped (do
      let op ← onMemory (Operation.decode opcode pc)
      advance op pc
      complete op policy
      return op : Exec Operation) := by
  intro m fault m' h
  rcases bind_eq_error h with hdecode | ⟨op, m₁, hdecode, hrest⟩
  · exact onMemory_untrapped (Operation.decode_untrapped hi pc) _ _ _ hdecode
  · obtain ⟨memory, hop, -⟩ := onMemory_eq_ok hdecode
    obtain ⟨bytes, rfl⟩ := Operation.eq_ofInstr_of_decode hi hop
    rcases bind_eq_error hrest with hadvance | ⟨_, m₂, -, hrest⟩
    · exact advance_untrapped _ _ _ _ _ hadvance
    rcases bind_eq_error hrest with hcomplete | ⟨_, m₃, -, hrest⟩
    · exact complete_untrapped hi bytes policy _ _ _ hcomplete
    · cases hrest

/-- A cycle that traps does so at an integer program counter and an opcode without an
implementation, and has read that opcode and done nothing else. -/
theorem cycle_trap (h : cycle policy m = .error fault m') (htrap : fault.IsTrap) :
    ∃ n, m.state.pc.int? = some n ∧ Instr.Unimplemented (m.memory.byteAt (UInt16.ofInt n))
      ∧ fault = trapFault (m.memory.byteAt (UInt16.ofInt n)) m.state.pc
      ∧ m' = m.fetched (UInt16.ofInt n) := by
  rcases cycle_eq_error h with hplain | ⟨n, m₁, hpc, hrest⟩
  · exact absurd htrap hplain
  cases hi : Instr.ofOpcode? (m.memory.byteAt (UInt16.ofInt n)) with
  | some i => exact absurd htrap (decoded_untrapped hi _ _ _ _ _ hrest)
  | none =>
    have hopcode := (Instr.unimplemented_iff _).2 hi
    cases (cycle_of_unimplemented hpc rfl hopcode policy).symm.trans h
    exact ⟨n, hpc, hopcode, rfl, rfl⟩

end Machine

/-- A step of a processor that traps has read an opcode without an implementation, and has done
nothing else. -/
theorem Cpu.step_trap {c c' : Cpu} {fault : Fault} (h : step c = .error fault c')
    (htrap : fault.IsTrap) :
    ∃ n, c.state.pc.int? = some n ∧ Instr.Unimplemented (c.memory.byteAt (UInt16.ofInt n))
      ∧ fault = trapFault (c.memory.byteAt (UInt16.ofInt n)) c.state.pc
      ∧ c' = { c with machine := c.machine.fetched (UInt16.ofInt n) } := by
  rw [step_eq] at h
  cases hcycle : Machine.cycle c.policy c.machine with
  | ok op m =>
    rw [hcycle] at h
    cases h
  | error cause m =>
    rw [hcycle] at h
    cases h
    obtain ⟨n, hpc, hopcode, hfault, rfl⟩ := Machine.cycle_trap hcycle htrap
    exact ⟨n, hpc, hopcode, hfault, rfl⟩

end Emu8080
