/-
# Emu8080.Proofs.Run -- runs of a sound debugger

A debugger is `Sound` when its machine is ready, the state it compares with is
whole, and its breakpoints watch fields by name.  Soundness survives an
instruction, a round, and by induction a whole run; the only fault that can come
out is a trap that the policy hands on.

`trail` lists the instructions that a run completes, also of a run that ends in a
fault.  The count of the processor grows by their number, and a run with a bound
comes to an end within one round more than its bound.
-/
import Emu8080.Proofs.Step
import Emu8080.Proofs.Trap

namespace Emu8080

set_option autoImplicit false

/-- The fault of an opcode without an implementation. -/
def Fault.IsTrap (fault : Fault) : Prop :=
  ∃ opcode pc mnemonic, fault = .unimplemented opcode pc mnemonic

/-! ## Ready machines -/

namespace Machine

variable {m m' : Machine}

theorem Ready.of_state (h : m.Ready) (hstate : m'.state = m.state) : m'.Ready where
  whole := by rw [hstate]; exact h.whole
  bus := by rw [hstate]; exact h.bus
  checked := by rw [hstate]; exact h.checked

/-- A ready machine stays ready at any place of the address space. -/
theorem Ready.moved (h : m.Ready) (k : Int) : (m.moved (.int (k % 65536))).Ready where
  whole :=
    { reg := h.whole.reg
      sp := h.whole.sp
      pc := Datum.isSome_within?_emod CpuState.maxWord k
      flag := h.whole.flag
      intEnable := h.whole.intEnable }
  bus := h.bus
  checked := h.checked

/-- A cycle of a ready machine ends well or in a trap, and leaves the machine ready. -/
theorem cycle_ready (h : m.Ready) (policy : FlagPolicy) :
    (∃ op m', cycle policy m = .ok op m' ∧ m'.Ready)
      ∨ ∃ opcode m', cycle policy m = .error (trapFault opcode m.state.pc) m' ∧ m'.Ready := by
  have hshows := h.shows
  cases hopcode : Instr.ofOpcode? (m.memory.byteAt m.chip.pc) with
  | some i =>
    obtain ⟨m', hstep, h'⟩ := step_records hshows hopcode policy
    rw [step_of_bus h.bus] at hstep
    exact .inl ⟨_, m', hstep, h'.toShows.ready⟩
  | none =>
    have hcycle := cycle_of_unimplemented hshows.pc (ofInt_toNat _).symm
      ((Instr.unimplemented_iff _).2 hopcode) policy
    exact .inr ⟨_, _, hcycle, h.of_state rfl⟩

end Machine

/-! ## Ready processors -/

namespace Cpu

/-- A processor with a ready machine that has counted a number of instructions. -/
structure ReadyAt (c : Cpu) (count : Nat) : Prop where
  ready : c.machine.Ready
  count : c.count = count

variable {c : Cpu} {n : Nat}

theorem step_ready (h : c.ReadyAt n) :
    (∃ s c', step c = .ok s c' ∧ s.state.Whole ∧ c'.ReadyAt (n + 1))
      ∨ ∃ opcode c', step c = .error (trapFault opcode c.machine.state.pc) c' ∧ c'.ReadyAt n := by
  rcases Machine.cycle_ready h.ready c.policy with ⟨op, m', hcycle, h'⟩ | ⟨opcode, m', hcycle, h'⟩
  · refine .inl ⟨_, _, step_of_ok hcycle, h'.whole, h'.of_state rfl, ?_⟩
    exact congrArg (· + 1) h.count
  · exact .inr ⟨opcode, _, step_of_error hcycle, h', h.count⟩

theorem skip_ready (h : c.ReadyAt n) {pc : Datum} {op : Operation} (hpc : pc.int?.isSome)
    (hlength : op.length.int?.isSome) :
    ∃ s c', skip pc op c = .ok s c' ∧ s.state.Whole ∧ c'.ReadyAt (n + 1) := by
  obtain ⟨place, hplace⟩ := Option.isSome_iff_exists.1 hpc
  obtain ⟨length, hlength⟩ := Option.isSome_iff_exists.1 hlength
  have hmoved := h.ready.moved (place + length)
  refine ⟨_, _, skip_eq hplace hlength c, hmoved.whole, hmoved.of_state rfl, ?_⟩
  exact congrArg (· + 1) h.count

end Cpu

/-! ## Breakpoints -/

namespace Breakpoint

/-- The field to watch is given by a text, or not at all. -/
def Named (b : Breakpoint) : Prop := (∃ name, b.register = .str name) ∨ b.register.truthy = false

theorem Named.watched {b : Breakpoint} (h : b.Named) : ∃ field, b.watched = .ok field := by
  rcases h with ⟨name, hname⟩ | hfalse
  · exact ⟨Field.ofText? name, by rw [Breakpoint.watched, hname]⟩
  · cases hregister : b.register with
    | str name => exact ⟨Field.ofText? name, by rw [Breakpoint.watched, hregister]⟩
    | null | bool x | int x | float x | list x | map x =>
      rw [hregister] at hfalse
      refine ⟨none, ?_⟩
      simp only [Breakpoint.watched, hregister, hfalse, Bool.false_eq_true, if_false]

/-- Every field of a whole state can be read. -/
theorem read_of_whole {s : CpuState} (h : s.Whole) (field : Field) :
    ∃ reading, field.read s = .ok reading := by
  cases field with
  | pair high low =>
    have hhigh := (Datum.isSome_within?_iff.1 (h.reg high)).1
    have hlow := (Datum.isSome_within?_iff.1 (h.reg low)).1
    refine ⟨.value (.int (pack (s.get high).number (s.get low).number)), ?_⟩
    have hword : s.word? high low = some (pack (s.get high).number (s.get low).number) := by
      rw [CpuState.word?, hhigh, hlow]
      rfl
    simp only [Field.read, hword]
  | memory =>
    cases hbus : s.bus with
    | memory => exact ⟨.memory, by simp only [Field.read, hbus]⟩
    | replaced d => exact ⟨.value d, by simp only [Field.read, hbus]⟩
  | check =>
    cases hextra : s.extra? CpuState.checkName with
    | none => exact ⟨.check, by simp only [Field.read, hextra]⟩
    | some d => exact ⟨.value d, by simp only [Field.read, hextra]⟩
  | pc | sp | reg r | codes | intEnable | flagByte | flag f => exact ⟨_, rfl⟩

variable {before : CpuState} {s : Snapshot}

/-- A condition on the value of a field can be looked at in a whole state. -/
theorem meets_of_value {b : Breakpoint} (henabled : b.isEnabled = true)
    (hkind : b.kind = .registerValue) {field : Option Field} (hwatched : b.watched = .ok field)
    (hs : s.state.Whole) : ∃ met, b.meets before s = .ok met := by
  have hlooked : (!b.isEnabled) = false := by rw [henabled]; rfl
  simp only [Breakpoint.meets, hlooked, hkind, hwatched, Bool.false_eq_true, if_false]
  cases field with
  | none => exact ⟨false, rfl⟩
  | some field =>
    obtain ⟨now, hnow⟩ := read_of_whole hs field
    refine ⟨now.is b.value, ?_⟩
    show (field.read s.state >>= fun now => pure (now.is b.value)) = _
    rw [hnow]
    rfl

/-- A condition on the change of a field can be looked at between whole states. -/
theorem meets_of_change {b : Breakpoint} (henabled : b.isEnabled = true)
    (hkind : b.kind = .registerChange) {field : Option Field} (hwatched : b.watched = .ok field)
    (hbefore : before.Whole) (hs : s.state.Whole) : ∃ met, b.meets before s = .ok met := by
  have hlooked : (!b.isEnabled) = false := by rw [henabled]; rfl
  simp only [Breakpoint.meets, hlooked, hkind, hwatched, Bool.false_eq_true, if_false]
  cases field with
  | none => exact ⟨false, rfl⟩
  | some field =>
    obtain ⟨now, hnow⟩ := read_of_whole hs field
    obtain ⟨past, hpast⟩ := read_of_whole hbefore field
    refine ⟨!now.agrees past, ?_⟩
    show (field.read s.state >>= fun now => field.read before >>= fun past =>
      pure (!now.agrees past)) = _
    rw [hnow, hpast]
    rfl

/-- The condition is on a field of the state. -/
def AsksField (b : Breakpoint) : Prop := b.kind = .registerValue ∨ b.kind = .registerChange

/-- A condition whose field is known can be looked at between whole states, if it has one. -/
theorem meets_of_watched {b : Breakpoint} (hbefore : before.Whole) (hs : s.state.Whole)
    (hwatched : b.isEnabled = true → b.AsksField → ∃ field, b.watched = .ok field) :
    ∃ met, b.meets before s = .ok met := by
  by_cases henabled : b.isEnabled = true
  · cases hkind : b.kind with
    | pcMatch | memoryRead | memoryWrite =>
      have hlooked : (!b.isEnabled) = false := by rw [henabled]; rfl
      simp only [Breakpoint.meets, hlooked, hkind, Bool.false_eq_true, if_false]
      exact ⟨_, rfl⟩
    | registerValue =>
      obtain ⟨field, hfield⟩ := hwatched henabled (.inl hkind)
      exact meets_of_value henabled hkind hfield hs
    | registerChange =>
      obtain ⟨field, hfield⟩ := hwatched henabled (.inr hkind)
      exact meets_of_change henabled hkind hfield hbefore hs
  · exact ⟨false, meets_disabled (Bool.eq_false_iff.2 henabled) before s⟩

/-- Conditions that can be looked at one by one can be looked at together. -/
theorem anyMeets_of_meets {list : List Breakpoint}
    (h : ∀ b ∈ list, ∃ met, b.meets before s = .ok met) :
    ∃ met, anyMeets before s list = .ok met := by
  induction list with
  | nil => exact ⟨false, rfl⟩
  | cons b rest ih =>
    obtain ⟨met, hmet⟩ := h b List.mem_cons_self
    obtain ⟨others, hothers⟩ := ih fun b' hb' => h b' (List.mem_cons_of_mem b hb')
    cases met with
    | true => exact ⟨true, by rw [anyMeets, hmet]; rfl⟩
    | false => exact ⟨others, by rw [anyMeets, hmet]; exact hothers⟩

/-- No breakpoint faults on whole states. -/
theorem anyMeets_of_named (hbefore : before.Whole) (hs : s.state.Whole) {list : List Breakpoint}
    (h : ∀ b ∈ list, b.Named) : ∃ met, anyMeets before s list = .ok met :=
  anyMeets_of_meets fun b hb => meets_of_watched hbefore hs fun _ _ => (h b hb).watched

end Breakpoint

/-! ## Sound debuggers -/

namespace Debugger

/-- A debugger whose machine is ready, after `count` counted instructions, and whose breakpoints
can be looked at. -/
structure Sound (d : Debugger) (count : Nat) : Prop where
  cpu : d.cpu.ReadyAt count
  before : d.before.Whole
  named : ∀ b ∈ d.breakpoints, b.Named

variable {d : Debugger} {n : Nat}

theorem Sound.faulted (h : d.Sound n) {c : Cpu} (hc : c.ReadyAt n) : (d.faulted c).Sound n where
  cpu := hc
  before := h.cpu.ready.whole
  named := h.named

theorem Sound.stepped (h : d.Sound n) {c : Cpu} (hc : c.ReadyAt (n + 1)) (s : Snapshot) :
    (d.stepped s c).Sound (n + 1) where
  cpu := hc
  before := h.cpu.ready.whole
  named := h.named

theorem Sound.noting (h : d.Sound n) (journal : Array Notice) : (d.noting journal).Sound n where
  cpu := h.cpu
  before := h.before
  named := h.named

theorem stepInstruction_sound (h : d.Sound n) :
    (∃ s d', stepInstruction d = .ok s d' ∧ d'.Sound (n + 1))
      ∨ ∃ fault d', stepInstruction d = .error fault d' ∧ fault.IsTrap ∧ d'.Sound n := by
  rcases Cpu.step_ready h.cpu with ⟨s, c, hstep, -, hc⟩ | ⟨opcode, c, hstep, hc⟩
  · exact .inl ⟨s, _, stepInstruction_of_ok hstep, h.stepped hc s⟩
  · exact .inr ⟨_, _, stepInstruction_of_error hstep, ⟨_, _, _, rfl⟩, h.faulted hc⟩

/-- What a round can come to. -/
inductive RoundSound (d : Debugger) (n : Nat) : Prop
  | done (s : Snapshot) (d' : Debugger) (hround : round d = .ok (.done s) d')
      (hs : s.state.Whole) (hd' : d'.Sound (n + 1))
  | trapped (fault : Fault) (d' : Debugger) (hround : round d = .ok (.trapped fault) d')
      (hd' : d'.Sound n)
  | raised (fault : Fault) (d' : Debugger) (hround : round d = .error fault d')
      (hfault : fault.IsTrap) (hd' : d'.Sound n)

theorem round_sound (h : d.Sound n) : RoundSound d n := by
  rcases Cpu.step_ready h.cpu with ⟨s, c, hstep, hs, hc⟩ | ⟨opcode, c, hstep, hc⟩
  · exact .done s _ (round_of_ok hstep) hs (h.stepped hc s)
  · cases hpolicy : d.trapPolicy with
    | halt =>
      obtain ⟨journal, hround⟩ := round_halt hpolicy hstep
      exact .trapped _ _ hround ((h.faulted hc).noting journal)
    | raise => exact .raised _ _ (round_raise hpolicy hstep) ⟨_, _, _, rfl⟩ (h.faulted hc)
    | skip =>
      have hpc : d.cpu.machine.state.pc.int?.isSome := by
        rw [h.cpu.ready.shows.pc]
        rfl
      have hlength :
          (skipOperation opcode (.str (Instr.missingMnemonic opcode))).length.int?.isSome := rfl
      obtain ⟨s, c', hskip, hs, hc'⟩ := Cpu.skip_ready hc hpc hlength
      obtain ⟨journal, hround⟩ := round_skip hpolicy hstep hskip
      exact .done s _ hround hs ((h.stepped hc' s).noting journal)

/-! ## Runs -/

variable {σ : Type}

/-- The instructions that a run completes, in order. -/
def trail (observer : Observer σ) (limit : Option Int) : Nat → Nat → σ → Debugger → List Snapshot
  | 0, _, _, _ => []
  | fuel + 1, steps, seen, d =>
      if endsAt limit steps d then []
      else
        match round d with
        | .ok (.done s) d' =>
            let (seen, stop) := observer.onStep seen s
            match Breakpoint.anyMeets d'.before s d'.breakpoints with
            | .ok met =>
                s :: if met || stop then [] else trail observer limit fuel (steps + 1) seen d'
            | .error _ => [s]
        | _ => []

section Trail

variable {observer : Observer σ} {limit : Option Int} {steps : Nat} {seen : σ} {s : Snapshot}
  {d' : Debugger} {fault : Fault}

theorem trail_of_ends (h : endsAt limit steps d = true) (fuel : Nat) :
    trail observer limit (fuel + 1) steps seen d = [] := by
  rw [trail, if_pos h]

theorem trail_of_trapped (h : endsAt limit steps d = false)
    (hround : round d = .ok (.trapped fault) d') (fuel : Nat) :
    trail observer limit (fuel + 1) steps seen d = [] := by
  rw [trail, if_neg (Bool.eq_false_iff.1 h), hround]

theorem trail_of_error (h : endsAt limit steps d = false) (hround : round d = .error fault d')
    (fuel : Nat) : trail observer limit (fuel + 1) steps seen d = [] := by
  rw [trail, if_neg (Bool.eq_false_iff.1 h), hround]

theorem trail_of_done {met : Bool} (h : endsAt limit steps d = false)
    (hround : round d = .ok (.done s) d')
    (hmeets : Breakpoint.anyMeets d'.before s d'.breakpoints = .ok met) (fuel : Nat) :
    trail observer limit (fuel + 1) steps seen d
      = s :: if met || (observer.onStep seen s).2 then []
        else trail observer limit fuel (steps + 1) (observer.onStep seen s).1 d' := by
  rw [trail, if_neg (Bool.eq_false_iff.1 h), hround]
  dsimp only
  rw [hmeets]

end Trail

/-- What a run can come to that completes `count` instructions: it returns with their number, or
it hands on a trap. -/
inductive RunSound (outcome : EStateM.Result Fault Debugger (Option (RunResult × σ)))
    (n steps count : Nat) : Prop
  | returned (result : RunResult) (seen : σ) (d' : Debugger)
      (houtcome : outcome = .ok (some (result, seen)) d')
      (hsteps : result.steps = steps + count) (hd' : d'.Sound (n + count))
  | raised (fault : Fault) (d' : Debugger) (houtcome : outcome = .error fault d')
      (hfault : fault.IsTrap) (hd' : d'.Sound (n + count))

/-- A run with a bound comes to an end within the rounds that are left to it. -/
theorem runFrom_sound (observer : Observer σ) {bound : Int} (fuel : Nat) {steps : Nat} (seen : σ)
    (hsteps : steps ≤ bound.toNat) (hfuel : bound.toNat < steps + fuel) (h : d.Sound n) :
    RunSound (runFrom observer (some bound) fuel steps seen d) n steps
      (trail observer (some bound) fuel steps seen d).length := by
  induction fuel generalizing steps seen d n with
  | zero => omega
  | succ fuel ih =>
    cases hends : endsAt (some bound) steps d with
    | true =>
      obtain ⟨result, journal, hrun, hresult⟩ := runFrom_of_ends observer seen hends fuel
      rw [trail_of_ends hends]
      exact .returned result seen _ hrun hresult (h.noting journal)
    | false =>
      cases round_sound h with
      | trapped fault d' hround hd' =>
        rw [trail_of_trapped hends hround]
        exact .returned _ seen d' (runFrom_of_trapped hends hround fuel) rfl hd'
      | raised fault d' hround hfault hd' =>
        rw [trail_of_error hends hround]
        exact .raised fault d' (runFrom_of_error hends hround fuel) hfault hd'
      | done s d' hround hs hd' =>
        obtain ⟨met, hmeets⟩ := Breakpoint.anyMeets_of_named hd'.before hs hd'.named
        rw [trail_of_done hends hround hmeets]
        cases hstop : met || (observer.onStep seen s).2 with
        | true =>
          obtain ⟨result, journal, hrun, hresult⟩ :=
            runFrom_of_stopped hends hround hmeets hstop fuel
          exact .returned result _ _ hrun hresult (hd'.noting journal)
        | false =>
          -- the bound is not reached, so that it leaves room for one more round
          have hbound : steps + 1 ≤ bound.toNat := by
            have hreached := (endsAt_eq_false hends).2
            simp only [reached, decide_eq_true_iff] at hreached
            omega
          rw [runFrom_of_going hends hround hmeets hstop, if_neg Bool.false_ne_true,
            List.length_cons]
          cases ih (observer.onStep seen s).1 hbound (by omega) hd' with
          | returned result seen' d'' houtcome hresult hd'' =>
            refine .returned result seen' d'' houtcome (by omega) ?_
            rw [Nat.add_comm _ 1, ← Nat.add_assoc]
            exact hd''
          | raised fault d'' houtcome hfault hd'' =>
            refine .raised fault d'' houtcome hfault ?_
            rw [Nat.add_comm _ 1, ← Nat.add_assoc]
            exact hd''

end Debugger

end Emu8080
