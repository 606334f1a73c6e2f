/-
# Emu8080.Proofs.PassOver -- passing over opcodes

A debugger that passes over opcodes without an implementation treats them as
idle instructions of one byte.  The snapshot it records is the one that the
processor would record with an idle instruction in that place, but for the
operation and for the byte that was read (`round_passes`, `step_idling`).

Its runs never come to a trap, neither as their end nor as a fault, and each
instruction they count is in the history (`runFrom_passes`).  What a trap policy
decides is decided at such opcodes alone, so that a run that executes none of
them is the same under each policy (`runFrom_under`).
-/
import Emu8080.Proofs.Stop
import Emu8080.Proofs.Verdict

namespace Emu8080

set_option autoImplicit false

open Emu8080.Action (get_bind bind_of_ok whole_bind)

/-! ## Idle instructions -/

namespace Machine

variable {m : Machine}

/-- An idle instruction is read and moves the program counter, and that is all. -/
theorem cycle_of_nop (h : m.Ready) (hopcode : m.memory.byteAt m.chip.pc = 0) (policy : FlagPolicy) :
    cycle policy m
      = .ok (.ofInstr 0 (.nop true) [])
          ((m.fetched m.chip.pc).moved (.int (((m.chip.pc.toNat : Int) + 1) % 65536))) := by
  let a := m.chip.pc
  have hpc : m.state.pc.int? = some (a.toNat : Int) := h.shows.pc
  have hmemory : Memory.read m.state.pc m.quiet.memory = .ok 0 (m.fetched a).memory := by
    rw [Memory.read_of_some hpc, ofInt_toNat, ← hopcode]
    rfl
  have hread : read m.state.pc m.quiet = .ok 0 (m.fetched a) := onMemory_of_ok hmemory
  have hdecode : onMemory (Operation.decode 0 m.state.pc) (m.fetched a)
      = .ok (.ofInstr 0 (.nop true) []) (m.fetched a) := onMemory_of_ok rfl
  let m' := (m.fetched a).moved (.int (((a.toNat : Int) + 1) % 65536))
  have hadvance : advance (.ofInstr 0 (.nop true) []) m.state.pc (m.fetched a) = .ok ⟨⟩ m' := by
    rw [advance, whole_bind hpc, whole_bind rfl]
    rfl
  have hready : m'.Ready := (h.of_state rfl : (m.fetched a).Ready).moved _
  have hcomplete : complete (.ofInstr 0 (.nop true) []) policy m' = .ok ⟨⟩ m' := by
    have hexecute : (Operation.ofInstr 0 (.nop true) []).execute policy m' = .ok ⟨⟩ m' :=
      execute_ofInstr rfl [] policy m'
    rw [complete, bind_of_ok hexecute, get_bind, hready.validate_eq]
    rfl
  rw [cycle, bind_of_ok (takeLog_eq m), get_bind]
  calc
    _ = _ := bind_of_ok hread _
    _ = _ := bind_of_ok hdecode _
    _ = _ := bind_of_ok hadvance _
    _ = _ := bind_of_ok hcomplete _

end Machine

namespace Cpu

variable {c : Cpu}

/-- The same processor with an idle instruction at its program counter. -/
def idling (c : Cpu) : Cpu :=
  { c with machine := { c.machine with memory := c.memory.store c.machine.chip.pc 0 } }

/-- The state at the next address. -/
def passed (c : Cpu) : CpuState :=
  { c.state with pc := .int (((c.machine.chip.pc.toNat : Int) + 1) % 65536) }

/-- What the processor does at an idle instruction. -/
theorem step_idling (h : c.machine.Ready) :
    ∃ s c', step c.idling = .ok s c' ∧ s.state = c.passed ∧ s.initialPc = c.state.pc
      ∧ s.count = c.count + 1
      ∧ ∀ a ≠ c.machine.chip.pc, c'.memory.byteAt a = c.memory.byteAt a := by
  have hready : c.idling.machine.Ready := h.of_state rfl
  have hopcode : c.idling.memory.byteAt c.machine.chip.pc = 0 := by
    show (c.memory.store c.machine.chip.pc 0).byteAt _ = 0
    rw [Memory.byteAt_store, if_pos rfl]
  refine ⟨_, _, step_of_ok (Machine.cycle_of_nop hready hopcode _), rfl, rfl, rfl, ?_⟩
  intro a ha
  show (c.memory.store c.machine.chip.pc 0).byteAt a = _
  rw [Memory.byteAt_store, if_neg ha]

end Cpu

namespace Debugger

variable {d d' e : Debugger} {s : Snapshot}

/-- The debugger `e` has passed over the opcode at its program counter, with the snapshot `s`. -/
structure PassesOver (e : Debugger) (s : Snapshot) (e' : Debugger) : Prop where
  state : s.state = e.cpu.passed
  initialPc : s.initialPc = e.cpu.state.pc
  count : s.count = e.cpu.count + 1
  activity : s.activity = [.read e.place (e.cpu.memory.byteAt e.place)]
  cpu : e'.cpu =
    { e.cpu with machine := { state := s.state, memory := e.cpu.memory.quiet }, count := s.count }
  resembles : e.Resembles e'
  before : e'.before = e.cpu.state
  last : e'.last = some s
  history : e'.history = remember e.capacity e.history s

/-- A debugger that passes over opcodes does so in a round. -/
theorem round_passes (h : e.cpu.machine.Ready) (hpolicy : e.trapPolicy = .skip)
    (hmissing : Instr.Unimplemented (e.cpu.memory.byteAt e.place)) :
    ∃ s e', round e = .ok (.done s) e' ∧ e.PassesOver s e' := by
  have hstep := Cpu.step_of_missing h.shows hmissing
  let opcode := e.cpu.memory.byteAt e.place
  let op := skipOperation opcode (.str (Instr.missingMnemonic opcode))
  have hlength : op.length.int? = some 1 := rfl
  have hskip :=
    Cpu.skip_eq h.shows.pc hlength { e.cpu with machine := e.cpu.machine.fetched e.place }
  obtain ⟨journal, hround⟩ := round_skip hpolicy hstep hskip
  exact ⟨_, _, hround, rfl, rfl, rfl, rfl, rfl, ⟨rfl, rfl, rfl, rfl⟩, rfl, rfl, rfl⟩

/-! ## Rounds and breakpoints -/

/-- A round keeps its snapshot and leaves the machine ready, or stops at a trap. -/
theorem round_cases (h : e.cpu.machine.Ready) :
    (∃ s c journal, round e = .ok (.done s) ((e.stepped s c).noting journal)
        ∧ s.state = c.state ∧ c.machine.Ready)
      ∨ e.trapPolicy ≠ .skip ∧ ∀ s e', round e ≠ .ok (.done s) e' := by
  cases ho : e.outcome? e.cpu.machine.chip with
  | some o =>
    obtain ⟨s, c, hperforms, hproceeds⟩ := proceed_of_outcome h.shows ho
    obtain ⟨-, journal, hround⟩ := hproceeds e rfl rfl
    exact .inl ⟨s, c, journal, hround, hperforms.state, hperforms.shows.ready⟩
  | none =>
    obtain ⟨-, hhalt, hraise⟩ := proceed_of_stuck h.shows ho
    obtain ⟨hskips, -⟩ := Chip.outcome?_eq_none_iff.1 ho
    have hpolicy : e.trapPolicy ≠ .skip := of_decide_eq_false hskips
    refine .inr ⟨hpolicy, fun s e' hdone => ?_⟩
    cases hcase : e.trapPolicy with
    | skip => exact hpolicy hcase
    | halt =>
      obtain ⟨journal, hround⟩ := hhalt hcase
      cases hdone.symm.trans hround
    | raise => cases hdone.symm.trans (hraise hcase)

end Debugger

/-! ## The faults of breakpoints -/

/-- A chain of checks faults as one of its parts. -/
theorem Action.fault_of_checks {α β : Type} {x : Except Fault α} {f : α → Except Fault β}
    {P : Fault → Prop} (hx : ∀ fault, x = .error fault → P fault)
    (hf : ∀ a fault, f a = .error fault → P fault) :
    ∀ fault, (x >>= f) = .error fault → P fault := by
  intro fault h
  cases x with
  | error fault' =>
    cases h
    exact hx fault rfl
  | ok a => exact hf a fault h

theorem Field.fault_of_read {s : CpuState} {field : Field} :
    ∀ fault, field.read s = .error fault → fault = .wrongKind := by
  intro fault h
  cases field with
  | pair high low =>
    rw [Field.read] at h
    cases hword : s.word? high low with
    | some n => simp [hword] at h
    | none => simpa [hword] using h.symm
  | memory =>
    rw [Field.read] at h
    cases hbus : s.bus <;> simp [hbus] at h
  | check =>
    rw [Field.read] at h
    cases hextra : s.extra? CpuState.checkName <;> simp [hextra] at h
  | pc | sp | reg r | codes | intEnable | flagByte | flag f => cases h

namespace Breakpoint

variable {b : Breakpoint} {before : CpuState} {s : Snapshot}

theorem fault_of_watched : ∀ fault, b.watched = .error fault → fault = .wrongKind := by
  intro fault h
  rw [watched] at h
  split at h
  · cases h
  · split at h
    · cases h
      rfl
    · cases h

/-- A breakpoint that cannot be looked at watches something of the wrong kind. -/
theorem fault_of_meets : ∀ fault, b.meets before s = .error fault → fault = .wrongKind := by
  cases henabled : b.isEnabled with
  | false =>
    rw [meets_disabled henabled]
    intro fault h
    cases h
  | true =>
    cases hkind : b.kind with
    | pcMatch | memoryRead | memoryWrite =>
      simp [meets, henabled, hkind]
    | registerValue =>
      simp only [meets, henabled, hkind, Bool.not_true, Bool.false_eq_true, if_false]
      refine Action.fault_of_checks fault_of_watched fun watched => ?_
      cases watched with
      | none =>
        intro fault h
        cases h
      | some field =>
        refine Action.fault_of_checks Field.fault_of_read fun now fault h => ?_
        cases h
    | registerChange =>
      simp only [meets, henabled, hkind, Bool.not_true, Bool.false_eq_true, if_false]
      refine Action.fault_of_checks fault_of_watched fun watched => ?_
      cases watched with
      | none =>
        intro fault h
        cases h
      | some field =>
        refine Action.fault_of_checks Field.fault_of_read fun now => ?_
        refine Action.fault_of_checks Field.fault_of_read fun past fault h => ?_
        cases h

theorem fault_of_anyMeets (list : List Breakpoint) :
    ∀ fault, anyMeets before s list = .error fault → fault = .wrongKind := by
  induction list with
  | nil =>
    intro fault h
    cases h
  | cons b rest ih =>
    refine Action.fault_of_checks fault_of_meets fun met => ?_
    cases met with
    | true =>
      intro fault h
      cases h
    | false => exact ih

end Breakpoint

namespace Debugger

variable {σ : Type} {observer : Observer σ} {limit : Option Int} {start seen seen' : σ}
  {fuel k : Nat} {d d' e e' : Debugger} {s : Snapshot}

/-! ## Runs that pass over opcodes -/

/-- What a run may come to that passes over opcodes, with `k` instructions behind it: no trap, and
as many snapshots in the history as instructions were executed. -/
inductive Passes (d : Debugger) (k : Nat) :
    EStateM.Result Fault Debugger (Option (RunResult × σ)) → Prop
  | answered (result : RunResult) (seen : σ) (d' : Debugger) (snapshots : List Snapshot)
      (hreason : result.reason ≠ .trap) (hsteps : result.steps = k + snapshots.length)
      (hhistory : d.capacity = none → d'.history.toList = d.history.toList ++ snapshots) :
      Passes d k (.ok (some (result, seen)) d')
  | faulted (fault : Fault) (d' : Debugger) (hfault : ¬ fault.IsTrap) :
      Passes d k (.error fault d')
  | unfinished (d' : Debugger) : Passes d k (.ok none d')

/-- An unbounded history grows by the snapshot of an instruction. -/
theorem history_stepped (c : Cpu) (journal : Array Notice) (h : d.capacity = none) :
    ((d.stepped s c).noting journal).history.toList = d.history.toList ++ [s] := by
  show (remember d.capacity d.history s).toList = _
  rw [h]
  exact Array.toList_push

/-- One instruction before a run. -/
theorem Passes.before {outcome : EStateM.Result Fault Debugger (Option (RunResult × σ))} {c : Cpu}
    {journal : Array Notice} (h : ((d.stepped s c).noting journal).Passes (k + 1) outcome) :
    d.Passes k outcome := by
  cases h with
  | answered result seen d' snapshots hreason hsteps hhistory =>
    refine .answered result seen d' (s :: snapshots) hreason ?_ fun hcapacity => ?_
    · rw [hsteps, List.length_cons]
      omega
    · rw [hhistory hcapacity, history_stepped c journal hcapacity, List.append_assoc]
      rfl
  | faulted fault d' hfault => exact .faulted fault d' hfault
  | unfinished d' => exact .unfinished d'

/-- A run that passes over opcodes never comes to a trap, and all it executes is in the history. -/
theorem runFrom_passes (h : d.cpu.machine.Ready) (hpolicy : d.trapPolicy = .skip) (fuel k : Nat)
    (seen : σ) : Passes d k (runFrom observer limit fuel k seen d) := by
  induction fuel generalizing k seen d with
  | zero => exact .unfinished d
  | succ fuel ih =>
    rw [runFrom_succ]
    have hjudged := judges observer limit k seen d
    generalize verdict observer limit k seen d = v at hjudged ⊢
    cases hjudged with
    | standing | bound =>
      exact .answered _ _ _ [] nofun rfl fun _ => (List.append_nil _).symm
    | executed _ hends hsettles =>
      obtain ⟨s, c, journal, hround, -, hc⟩ | ⟨hstops, -⟩ := round_cases h
      · rw [hround] at hsettles
        cases hsettles with
        | unreadable _ fault _ hmeets =>
          refine .faulted fault _ ?_
          rintro ⟨opcode, pc, mnemonic, rfl⟩
          exact absurd (Breakpoint.fault_of_anyMeets _ _ hmeets) nofun
        | met | asked => exact .answered _ _ _ [s] nofun rfl (history_stepped c journal)
        | goes =>
          let d₁ := (d.stepped s c).noting journal
          have hrest := ih (d := d₁) hc hpolicy (k + 1) (observer.onStep seen s).1
          exact hrest.before
      · exact absurd hpolicy hstops

/-! ## Runs without opcodes to pass over -/

/-- A run gets to the debugger `e` with `k` instructions behind it. -/
inductive GetsTo (observer : Observer σ) (limit : Option Int) (start : σ) (d : Debugger) :
    Nat → σ → Debugger → Prop
  | start : GetsTo observer limit start d 0 start d
  | next {k : Nat} {seen seen' : σ} {e e' : Debugger} (h : GetsTo observer limit start d k seen e)
      (hgoes : verdict observer limit k seen e = .goes seen' e') :
      GetsTo observer limit start d (k + 1) seen' e'

/-- A run executes what stands at the program counter of `e`, with `k` instructions behind it. -/
structure Executes (observer : Observer σ) (limit : Option Int) (start : σ) (d : Debugger) (k : Nat)
    (seen : σ) (e : Debugger) : Prop where
  getsTo : GetsTo observer limit start d k seen e
  goes : endsAt limit k e = false

/-- Where a run gets, the rest of it begins. -/
theorem GetsTo.runFrom_eq (h : GetsTo observer limit start d k seen e) (fuel : Nat) :
    runFrom observer limit (k + fuel) 0 start d = runFrom observer limit fuel k seen e := by
  induction h generalizing fuel with
  | start => rw [Nat.zero_add]
  | @next k seen seen' e e' h hgoes ih =>
    rw [Nat.add_assoc, Nat.add_comm 1, ih, runFrom_succ, hgoes]
    rfl

/-- Where a run gets, the machine is ready, and the policy is what it was. -/
theorem GetsTo.ready (h : GetsTo observer limit start d k seen e) (hd : d.cpu.machine.Ready) :
    e.cpu.machine.Ready ∧ e.trapPolicy = d.trapPolicy := by
  induction h with
  | start => exact ⟨hd, rfl⟩
  | @next k seen seen' e e' h hgoes ih =>
    obtain ⟨he, hpolicy⟩ := ih
    have hjudged := judges observer limit k seen e
    rw [hgoes] at hjudged
    cases hjudged with
    | executed _ hends hsettles =>
      generalize hround : round e = executed at hsettles
      cases hsettles with
      | goes s =>
        obtain ⟨s', c, journal, hdone, -, hc⟩ | ⟨-, hstops⟩ := round_cases he
        · cases hround.symm.trans hdone
          exact ⟨hc, hpolicy⟩
        · exact absurd hround (hstops s e')

/-- The same debugger under another trap policy. -/
def under (p : TrapPolicy) (d : Debugger) : Debugger := { d with trapPolicy := p }

/-- The same verdict, with the debugger under another trap policy. -/
def Verdict.under (p : TrapPolicy) : Verdict σ → Verdict σ
  | .answers result seen d => .answers result seen (d.under p)
  | .faults fault d => .faults fault (d.under p)
  | .goes seen d => .goes seen (d.under p)

/-- The same outcome, with the debugger under another trap policy. -/
def outcomeUnder {α : Type} (p : TrapPolicy) :
    EStateM.Result Fault Debugger α → EStateM.Result Fault Debugger α
  | .ok a d => .ok a (d.under p)
  | .error fault d => .error fault (d.under p)

variable (p : TrapPolicy)

/-- An instruction with an implementation is executed alike under each policy. -/
theorem round_under (h : e.cpu.machine.Ready)
    (himplemented : ¬ Instr.Unimplemented (e.cpu.memory.byteAt e.place)) :
    ∃ s e', round e = .ok (.done s) e' ∧ round (e.under p) = .ok (.done s) (e'.under p) := by
  cases hi : Instr.ofOpcode? (e.cpu.memory.byteAt e.place) with
  | none => exact absurd ((Instr.unimplemented_iff _).2 hi) himplemented
  | some i =>
    obtain ⟨s, c, hstep, -⟩ := Cpu.step_performs h.shows hi
    have hunder : Cpu.step (e.under p).cpu = .ok s c := hstep
    exact ⟨s, e.stepped s c, round_of_ok hstep, round_of_ok hunder⟩

theorem settle_under (s : Snapshot) (e : Debugger) :
    settle observer k seen (.ok (.done s) (e.under p))
      = (settle observer k seen (.ok (.done s) e)).under p := by
  have hmeets : Breakpoint.anyMeets (e.under p).before s (e.under p).breakpoints
      = Breakpoint.anyMeets e.before s e.breakpoints := rfl
  rw [settle, settle, hmeets]
  cases Breakpoint.anyMeets e.before s e.breakpoints with
  | error fault => rfl
  | ok met => cases met <;> cases (observer.onStep seen s).2 <;> rfl

/-- A verdict is the same under each policy, unless it is on an opcode without an implementation. -/
theorem verdict_under (h : e.cpu.machine.Ready)
    (himplemented : endsAt limit k e = false →
      ¬ Instr.Unimplemented (e.cpu.memory.byteAt e.place)) :
    verdict observer limit k seen (e.under p) = (verdict observer limit k seen e).under p := by
  have hunder : stands k (e.under p) = stands k e := rfl
  rw [verdict, verdict, hunder]
  cases hstands : stands k e with
  | true => rfl
  | false =>
    cases hreached : reached limit k with
    | true => rfl
    | false =>
      have hends : endsAt limit k e = false := Bool.or_eq_false_iff.2 ⟨hstands, hreached⟩
      obtain ⟨s, e', hround, hround'⟩ := round_under p h (himplemented hends)
      rw [hround, hround', settle_under]
      rfl

/-- A run that executes no opcode without an implementation is the same under each policy. -/
theorem runFrom_under (hd : d.cpu.machine.Ready)
    (himplemented : ∀ k seen e, d.Executes observer limit start k seen e →
      ¬ Instr.Unimplemented (e.cpu.memory.byteAt e.place))
    (h : GetsTo observer limit start d k seen e) (fuel : Nat) :
    runFrom observer limit fuel k seen (e.under p)
      = outcomeUnder p (runFrom observer limit fuel k seen e) := by
  -- the run is followed from `d` on, so that nothing is asked of opcodes it does not get to
  induction fuel generalizing k seen e with
  | zero => rfl
  | succ fuel ih =>
    have hverdict : verdict observer limit k seen (e.under p)
        = (verdict observer limit k seen e).under p :=
      verdict_under p (h.ready hd).1 fun hends => himplemented k seen e ⟨h, hends⟩
    rw [runFrom_succ, runFrom_succ, hverdict]
    cases hgoes : verdict observer limit k seen e with
    | answers | faults => rfl
    | goes seen' e' => exact ih (h.next hgoes)

/-- Passing over opcodes without an implementation is executing idle instructions in their place.
Wherever a run does so, it goes on with a snapshot and a debugger as after an idle instruction, but
for the byte that was read; it never comes to a trap, and all it executes is in the history.  Where
no such opcode is executed, each trap policy gives the same run. -/
theorem run_passes_over (hready : d.cpu.machine.Ready) {bound : Datum}
    (hbound : d.boundFor bound = .ok limit) (observer : Observer σ) (start : σ) :
    (d.trapPolicy = .skip →
      (∀ k seen e, d.Executes observer limit start k seen e →
        Instr.Unimplemented (e.cpu.memory.byteAt e.place) →
        ∃ s e', (∀ fuel, run (k + (fuel + 1)) bound observer start d
              = (settle observer k seen (.ok (.done s) e')).resolve
                  (runFrom observer limit fuel (k + 1)))
          ∧ e.PassesOver s e'
          ∧ ∃ t c, Cpu.step e.cpu.idling = .ok t c ∧ t.state = s.state
            ∧ t.initialPc = s.initialPc ∧ t.count = s.count
            ∧ ∀ a ≠ e.place, c.memory.byteAt a = e'.cpu.memory.byteAt a)
      ∧ ∀ fuel, d.Passes 0 (run fuel bound observer start d))
    ∧ ((∀ k seen e, d.Executes observer limit start k seen e →
        ¬ Instr.Unimplemented (e.cpu.memory.byteAt e.place)) →
      ∀ p fuel, run fuel bound observer start (d.under p)
        = outcomeUnder p (run fuel bound observer start d)) := by
  refine ⟨fun hpolicy => ⟨?_, fun fuel => ?_⟩, fun himplemented p fuel => ?_⟩
  · intro k seen e hexecutes hmissing
    obtain ⟨he, hkept⟩ := hexecutes.getsTo.ready hready
    obtain ⟨s, e', hround, hpasses⟩ := round_passes he (hkept.trans hpolicy) hmissing
    obtain ⟨t, c, hidle, hstate, hplace, hcount, hmemory⟩ := Cpu.step_idling he
    refine ⟨s, e', fun fuel => ?_, hpasses, t, c, hidle, ?_, ?_, ?_, fun a ha => ?_⟩
    · rw [run_of_bound hbound, hexecutes.getsTo.runFrom_eq, runFrom_succ,
        verdict_of_ends_eq_false hexecutes.goes, hround]
    · rw [hstate, hpasses.state]
    · rw [hplace, hpasses.initialPc]
    · rw [hcount, hpasses.count]
    · rw [hmemory a ha, hpasses.cpu]
      rfl
  · rw [run_of_bound hbound]
    exact runFrom_passes hready hpolicy fuel 0 start
  · have hbound' : (d.under p).boundFor bound = .ok limit := by
      cases bound <;> exact hbound
    rw [run_of_bound hbound, run_of_bound hbound']
    exact runFrom_under p hready himplemented .start fuel

/-- A halt instruction at the last address is passed over to address 0.  A run of one idle
instruction is the same under each policy. -/
theorem run_passes_over_last_address :
    let d : Debugger :=
      { cpu :=
          { machine :=
              { state := { pc := .int 0xFFFF }, memory := Memory.zero.store 0xFFFF 0x76 } }
        trapPolicy := .skip
        before := {} }
    let idle : Debugger := { cpu := {}, before := {} }
    (∃ s d', run 2 (.int 1) Observer.silent () d
          = .ok (some ({ reason := .maxSteps, steps := 1, pc := .int 0 }, ())) d'
        ∧ d'.last = some s ∧ s.activity = [.read 0xFFFF 0x76] ∧ s.initialPc = .int 0xFFFF)
      ∧ ∀ p, run 2 (.int 1) Observer.silent () (idle.under p)
        = outcomeUnder p (run 2 (.int 1) Observer.silent () idle) := by
  intro d idle
  constructor
  · have hready : d.cpu.machine.Ready := ⟨{ CpuState.whole_fresh with pc := rfl }, rfl, rfl⟩
    have hbyte : d.cpu.memory.byteAt d.place = 0x76 := Memory.byteAt_store _ 0xFFFF 0xFFFF 0x76
    have hmissing : Instr.Unimplemented (d.cpu.memory.byteAt d.place) := by
      rw [hbyte]
      decide
    have hbound : d.boundFor (.int 1) = .ok (some 1) := rfl
    obtain ⟨hskips, -⟩ := run_passes_over hready hbound Observer.silent ()
    obtain ⟨s, d', hrun, hpasses, -⟩ := (hskips rfl).1 0 () d ⟨.start, rfl⟩ hmissing
    have hlist : d'.breakpoints = [] := hpasses.resembles.breakpoints
    have hgoes : settle Observer.silent 0 () (.ok (.done s) d') = .goes () d' := by
      rw [settle, hlist]
      rfl
    have hstands : ¬ stands 1 d' = true := by
      rw [stands, hlist]
      exact Bool.false_ne_true
    have hpc : d'.cpu.state.pc = .int 0 := by
      have hplace : d.place = 0xFFFF := rfl
      rw [hpasses.cpu]
      show s.state.pc = _
      rw [hpasses.state]
      show Datum.int (((d.place.toNat : Int) + 1) % 65536) = .int 0
      rw [hplace]
      rfl
    have hreached : reached (some 1) 1 = true := rfl
    have hend := runFrom_of_reached Observer.silent () hstands hreached 0
    refine ⟨s, d', ?_, hpasses.last, ?_, hpasses.initialPc⟩
    · rw [← hpc]
      exact (hrun 1).trans (hgoes ▸ hend)
    · rw [hpasses.activity, hbyte]
      rfl
  · have hready : idle.cpu.machine.Ready := ⟨CpuState.whole_fresh, rfl, rfl⟩
    have hbound : idle.boundFor (.int 1) = .ok (some 1) := rfl
    obtain ⟨-, hsame⟩ := run_passes_over hready hbound Observer.silent ()
    intro p
    refine hsame ?_ p 2
    rintro k seen e ⟨hgets, hgoes⟩
    cases hgets with
    | start =>
      have hbyte : idle.cpu.memory.byteAt idle.place = 0 := Memory.byteAt_zero _
      rw [hbyte]
      decide
    | next =>
      have hreached := (endsAt_eq_false hgoes).2
      simp only [reached, decide_eq_true_iff] at hreached
      omega

end Debugger

end Emu8080
