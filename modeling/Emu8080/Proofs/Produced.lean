/-
# Emu8080.Proofs.Produced -- the snapshots that a debugger produces

Nothing is asked of the debugger here: its state may hold anything, so that any
fault can come out of a round.  A round still gives a snapshot in two ways only.
The instruction was executed, or its opcode has no implementation and was passed
over (`Gives`); and whatever else a round comes to, nothing is added to what the
debugger remembers.

A completed cycle says three things of its snapshot: where the program counter
came from and went to, that it was counted, and that the state was checked
(`Cpu.step_eq_ok`).

A call of the host is a row of such rounds (`Rounds`), and the snapshots of the
row are the ones that the call produced.  What an observer of a run is shown are
the same snapshots, in the same order (`RunCall.perform_keeping`).
-/
import Emu8080.Proofs.Faulting
import Emu8080.Proofs.History
import Emu8080.Proofs.Verdict

namespace Emu8080

set_option autoImplicit false

open Emu8080.Action (final final_of_ok final_of_error get_bind bind_of_ok bind_of_error
  bind_of_eq bind_eq_ok demand_eq_ok whole_eq_ok value?_of_ok value?_of_error)

/-! ## Cycles -/

namespace Machine

variable {m m' : Machine} {op : Operation} {policy : FlagPolicy}

/-- An operation advances the machine by its length. -/
theorem advance_eq_ok {pc : Datum} {u : Unit} (h : advance op pc m = .ok u m') :
    ∃ n k, pc.int? = some n ∧ op.length.int? = some k
      ∧ m' = m.moved (.int ((n + k) % 65536)) := by
  obtain ⟨n, m₁, hbase, hrest⟩ := bind_eq_ok h
  obtain ⟨hpc, rfl⟩ := whole_eq_ok hbase
  obtain ⟨k, m₂, hcount, hmove⟩ := bind_eq_ok hrest
  obtain ⟨hlength, rfl⟩ := whole_eq_ok hcount
  cases hmove
  exact ⟨n, k, hpc, hlength, rfl⟩

/-- A completed operation leaves the program counter alone and a state that was checked. -/
theorem complete_eq_ok {u : Unit} (h : complete op policy m = .ok u m') :
    m'.state.pc = m.state.pc ∧ m'.state.validate = .ok () := by
  obtain ⟨_, m₁, hexecute, hcheck⟩ := bind_eq_ok h
  rw [get_bind] at hcheck
  obtain ⟨hvalid, rfl⟩ := demand_eq_ok hcheck
  have hkept := Operation.execute_keeps (steady_pc m.state.pc) op policy m rfl
  rw [final_of_ok hexecute] at hkept
  exact ⟨hkept, hvalid⟩

/-- A completed cycle has moved the program counter past its operation, and the state was checked
at its end. -/
theorem cycle_eq_ok (h : cycle policy m = .ok op m') :
    (∃ n k, m.state.pc.int? = some n ∧ op.length.int? = some k
      ∧ m'.state.pc = .int ((n + k) % 65536))
    ∧ m'.state.validate = .ok () := by
  rw [cycle, bind_of_ok (takeLog_eq m), get_bind] at h
  obtain ⟨opcode, m₁, -, h⟩ := bind_eq_ok h
  obtain ⟨op', m₂, -, h⟩ := bind_eq_ok h
  obtain ⟨_, m₃, hadvance, h⟩ := bind_eq_ok h
  obtain ⟨_, m₄, hcomplete, h⟩ := bind_eq_ok h
  cases h
  obtain ⟨n, k, hpc, hlength, rfl⟩ := advance_eq_ok hadvance
  obtain ⟨hplace, hvalid⟩ := complete_eq_ok hcomplete
  exact ⟨⟨n, k, hpc, hlength, hplace⟩, hvalid⟩

end Machine

namespace Cpu

/-- A processor that has read an opcode without an implementation and has passed over it. -/
def past (c : Cpu) (n : Int) : Cpu :=
  { c with
    machine := ((c.machine.fetched (UInt16.ofInt n)).moved (.int ((n + 1) % 65536))).quiet
    count := c.count + 1 }

/-- What is on record of an opcode that was passed over at the place `n`. -/
def passing (c : Cpu) (n : Int) : Snapshot :=
  let opcode := c.memory.byteAt (UInt16.ofInt n)
  { state := { c.state with pc := .int ((n + 1) % 65536) }
    operation := Debugger.skipOperation opcode (.str (Instr.missingMnemonic opcode))
    count := c.count + 1
    initialPc := c.state.pc
    activity := (c.machine.fetched (UInt16.ofInt n)).memory.log }

variable {c c' : Cpu} {s : Snapshot} {n : Int}

/-- How a snapshot is tied to the processors before and after it. -/
structure Tied (c : Cpu) (s : Snapshot) (c' : Cpu) : Prop where
  initialPc : s.initialPc = c.state.pc
  place : ∃ n k, s.initialPc.int? = some n ∧ s.operation.length.int? = some k
    ∧ s.state.pc = .int ((n + k) % 65536)
  count : s.count = c.count + 1
  counted : c'.count = s.count
  state : c'.state = s.state

/-- A step that gives a snapshot is a completed cycle. -/
theorem step_eq_ok (h : step c = .ok s c') : c.Tied s c' ∧ s.state.validate = .ok () := by
  rw [step_eq] at h
  cases hcycle : Machine.cycle c.policy c.machine with
  | ok op m =>
    rw [hcycle] at h
    cases h
    obtain ⟨hplace, hvalid⟩ := Machine.cycle_eq_ok hcycle
    exact ⟨⟨rfl, hplace, rfl, rfl, rfl⟩, hvalid⟩
  | error fault m =>
    rw [hcycle] at h
    cases h

/-- A step that faults counts nothing. -/
theorem count_of_step_error {fault : Fault} (h : step c = .error fault c') :
    c'.count = c.count := by
  rw [step_eq] at h
  cases hcycle : Machine.cycle c.policy c.machine with
  | ok op m =>
    rw [hcycle] at h
    cases h
  | error cause m =>
    rw [hcycle] at h
    cases h
    rfl

theorem passing_tied (hpc : c.state.pc.int? = some n) : c.Tied (c.passing n) (c.past n) :=
  ⟨rfl, ⟨n, 1, hpc, rfl, rfl⟩, rfl, rfl, rfl⟩

theorem skip_fetched (hpc : c.state.pc.int? = some n) :
    let opcode := c.memory.byteAt (UInt16.ofInt n)
    skip c.state.pc (Debugger.skipOperation opcode (.str (Instr.missingMnemonic opcode)))
        { c with machine := c.machine.fetched (UInt16.ofInt n) }
      = .ok (c.passing n) (c.past n) :=
  skip_eq hpc rfl _

end Cpu

/-- The same observer, which also keeps what it is shown. -/
def Observer.keeping {σ : Type} (observer : Observer σ) : Observer (σ × List Snapshot) where
  onStep := fun (seen, shown) s =>
    (((observer.onStep seen s).1, shown ++ [s]), (observer.onStep seen s).2)

namespace Debugger

variable {d d' d'' : Debugger} {s : Snapshot} {fault : Fault}

/-! ## Rounds -/

/-- How a round gives a snapshot. -/
inductive Gives (d : Debugger) (s : Snapshot) (d' : Debugger) : Prop
  | executed (c : Cpu) (hstep : Cpu.step d.cpu = .ok s c) (hd' : d' = d.stepped s c)
  | passed (n : Int) (journal : Array Notice) (hpolicy : d.trapPolicy = .skip)
      (hpc : d.cpu.state.pc.int? = some n)
      (hopcode : Instr.Unimplemented (d.cpu.memory.byteAt (UInt16.ofInt n)))
      (hs : s = d.cpu.passing n) (hd' : d' = (d.stepped s (d.cpu.past n)).noting journal)

/-- The same debugger, but for the processor, the state it compares with, and the journal. -/
def Stuck (d d' : Debugger) : Prop := ∃ c journal, d' = (d.faulted c).noting journal

/-- What a round can come to, whatever the state holds. -/
inductive RoundGives (d : Debugger) : Prop
  | done (s : Snapshot) (d' : Debugger) (hround : round d = .ok (.done s) d') (h : d.Gives s d')
  | trapped (fault : Fault) (d' : Debugger) (hround : round d = .ok (.trapped fault) d')
      (h : d.Stuck d')
  | raised (fault : Fault) (d' : Debugger) (hround : round d = .error fault d') (h : d.Stuck d')

/-- A fault that is no trap goes to the caller under every trap policy. -/
theorem round_of_error {c : Cpu} (h : Cpu.step d.cpu = .error fault c) (hplain : ¬fault.IsTrap) :
    round d = .error fault (d.faulted c) := by
  rw [round, bind_of_ok (attempt_of_error h)]
  cases fault with
  | unimplemented opcode pc mnemonic => exact absurd ⟨opcode, pc, mnemonic, rfl⟩ hplain
  | _ => rfl

/-- Under the policy for it, an opcode without an implementation is passed over. -/
theorem round_passing {n : Int} (hpolicy : d.trapPolicy = .skip)
    (hpc : d.cpu.state.pc.int? = some n)
    (hopcode : Instr.Unimplemented (d.cpu.memory.byteAt (UInt16.ofInt n))) :
    ∃ journal, round d = .ok (.done (d.cpu.passing n))
      ((d.stepped (d.cpu.passing n) (d.cpu.past n)).noting journal) :=
  round_skip hpolicy (step_of_unimplemented hpc rfl hopcode) (Cpu.skip_fetched hpc)

theorem round_gives (d : Debugger) : RoundGives d := by
  cases hstep : Cpu.step d.cpu with
  | ok s c => exact .done s _ (round_of_ok hstep) (.executed c hstep rfl)
  | error fault c =>
    by_cases htrap : fault.IsTrap
    · obtain ⟨n, hpc, hopcode, rfl, rfl⟩ := Cpu.step_trap hstep htrap
      cases hpolicy : d.trapPolicy with
      | halt =>
        obtain ⟨journal, hround⟩ := round_halt hpolicy hstep
        exact .trapped _ _ hround ⟨_, journal, rfl⟩
      | raise => exact .raised _ _ (round_raise hpolicy hstep) ⟨_, d.journal, rfl⟩
      | skip =>
        obtain ⟨journal, hround⟩ := round_passing hpolicy hpc hopcode
        exact .done _ _ hround (.passed n journal hpolicy hpc hopcode rfl rfl)
    · exact .raised fault _ (round_of_error hstep htrap) ⟨c, d.journal, rfl⟩

/-- However a snapshot was given, it is the last one and in the history. -/
theorem Gives.stepped (h : d.Gives s d') : ∃ c journal, d' = (d.stepped s c).noting journal := by
  cases h with
  | executed c _ hd' => exact ⟨c, d.journal, hd'⟩
  | passed n journal _ _ _ _ hd' => exact ⟨_, journal, hd'⟩

theorem Gives.tied (h : d.Gives s d') : d.cpu.Tied s d'.cpu := by
  cases h with
  | executed c hstep hd' =>
    subst hd'
    exact (Cpu.step_eq_ok hstep).1
  | passed n journal _ hpc _ hs hd' =>
    subst hs hd'
    exact Cpu.passing_tied hpc

/-! ## Rows of rounds -/

/-- The debugger came from `d` to another one by rounds that gave these snapshots; it may have
stopped after them, or got stuck. -/
inductive Rounds : Debugger → List Snapshot → Debugger → Prop
  | stop (d : Debugger) (journal : Array Notice) : Rounds d [] (d.noting journal)
  | stuck {d d' : Debugger} (h : d.Stuck d') : Rounds d [] d'
  | next {d d' d'' : Debugger} {s : Snapshot} {rest : List Snapshot} (h : d.Gives s d')
      (hrest : Rounds d' rest d'') : Rounds d (s :: rest) d''

section Run

variable {σ : Type} {observer : Observer σ} {limit : Option Int} {steps : Nat} {seen : σ}

/-- Also an instruction after which no breakpoint can be looked at leaves a trail. -/
theorem trail_of_unreadable (h : endsAt limit steps d = false) (hround : round d = .ok (.done s) d')
    (hmeets : Breakpoint.anyMeets d'.before s d'.breakpoints = .error fault) (fuel : Nat) :
    trail observer limit (fuel + 1) steps seen d = [s] := by
  rw [trail, if_neg (Bool.eq_false_iff.1 h), hround]
  dsimp only
  rw [hmeets]

/-- The trail of a run is the snapshots of its rounds, whatever the run comes to. -/
theorem runFrom_rounds (observer : Observer σ) (limit : Option Int) (fuel steps : Nat) (seen : σ)
    (d : Debugger) :
    Rounds d (trail observer limit fuel steps seen d)
      ((runFrom observer limit fuel steps seen).final d) := by
  induction fuel generalizing steps seen d with
  | zero => exact .stop d d.journal
  | succ fuel ih =>
    cases hends : endsAt limit steps d with
    | true =>
      obtain ⟨result, journal, hrun, -⟩ := runFrom_of_ends observer seen hends fuel
      rw [trail_of_ends hends, final_of_ok hrun]
      exact .stop d journal
    | false =>
      cases round_gives d with
      | trapped fault d' hround h =>
        rw [trail_of_trapped hends hround, final_of_ok (runFrom_of_trapped hends hround fuel)]
        exact .stuck h
      | raised fault d' hround h =>
        rw [trail_of_error hends hround, final_of_error (runFrom_of_error hends hround fuel)]
        exact .stuck h
      | done s d' hround h =>
        cases hmeets : Breakpoint.anyMeets d'.before s d'.breakpoints with
        | error fault =>
          rw [trail_of_unreadable hends hround hmeets,
            final_of_error (runFrom_of_unreadable hends hround hmeets fuel)]
          exact .next h (.stop d' d'.journal)
        | ok met =>
          rw [trail_of_done hends hround hmeets]
          cases hstop : met || (observer.onStep seen s).2 with
          | true =>
            obtain ⟨result, journal, hrun, -⟩ := runFrom_of_stopped hends hround hmeets hstop fuel
            rw [final_of_ok hrun]
            exact .next h (.stop d' journal)
          | false =>
            rw [final, runFrom_of_going hends hround hmeets hstop, if_neg Bool.false_ne_true]
            exact .next h (ih (steps + 1) (observer.onStep seen s).1 d')

end Run

/-! ## What an observer is shown -/

section Keeping

variable {σ : Type} {observer : Observer σ} {limit : Option Int} {fuel steps : Nat} {seen : σ}
  {shown : List Snapshot}

/-- The snapshot that a round gave. -/
def given : EStateM.Result Fault Debugger Round → List Snapshot
  | .ok (.done s) _ => [s]
  | .ok (.trapped _) _ | .error _ _ => []

/-- What a run produces by its next round, if there is one. -/
def opening (limit : Option Int) (steps : Nat) (d : Debugger) : List Snapshot :=
  if endsAt limit steps d then [] else given (round d)

/-- A verdict on a run whose observer keeps what it is shown. -/
def Verdict.showing (shown : List Snapshot) : Verdict σ → Verdict (σ × List Snapshot)
  | .answers result seen d => .answers result (seen, shown) d
  | .faults fault d => .faults fault d
  | .goes seen d => .goes (seen, shown) d

/-- What comes after a verdict, if the run goes on. -/
def Verdict.rest (later : σ → Debugger → List Snapshot) : Verdict σ → List Snapshot
  | .goes seen d => later seen d
  | .answers .. | .faults .. => []

/-- The outcome of a run, with the snapshots that were shown. -/
def withShown (shown : List Snapshot) :
    Option (RunResult × σ) → Option (RunResult × σ × List Snapshot) :=
  Option.map fun (result, seen) => (result, seen, shown)

/-- A run that stops before a round does so for every observer. -/
theorem verdict_of_ends (h : endsAt limit steps d = true) :
    ∃ result d', ∀ {τ : Type} (observer : Observer τ) (seen : τ),
      verdict observer limit steps seen d = .answers result seen d' := by
  cases hstands : stands steps d with
  | true =>
    refine ⟨{ reason := .breakpoint, steps, pc := d.cpu.state.pc }, d.hit d.cpu.state.pc, ?_⟩
    intro τ observer seen
    rw [verdict, if_pos hstands]
  | false =>
    have hreached : reached limit steps = true :=
      (Bool.or_eq_true_iff.1 h).resolve_left (Bool.eq_false_iff.1 hstands)
    refine ⟨{ reason := .maxSteps, steps, pc := d.cpu.state.pc }, d, ?_⟩
    intro τ observer seen
    rw [verdict, if_neg (Bool.eq_false_iff.1 hstands), if_pos hreached]

theorem settle_keeping (executed : EStateM.Result Fault Debugger Round) :
    settle observer.keeping steps (seen, shown) executed
      = (settle observer steps seen executed).showing (shown ++ given executed) := by
  cases executed with
  | error fault d => rfl
  | ok r d =>
    cases r with
    | trapped fault => rw [given, List.append_nil]; rfl
    | done s =>
      rw [settle, settle]
      cases Breakpoint.anyMeets d.before s d.breakpoints with
      | error fault => rfl
      | ok met =>
        cases met with
        | true => rfl
        | false =>
          have hsame : (observer.keeping.onStep (seen, shown) s).2 = (observer.onStep seen s).2 := rfl
          simp only [hsame]
          cases (observer.onStep seen s).2 <;> rfl

/-- The verdicts do not depend on what is kept. -/
theorem verdict_keeping :
    verdict observer.keeping limit steps (seen, shown) d
      = (verdict observer limit steps seen d).showing (shown ++ opening limit steps d) := by
  rw [opening]
  cases hends : endsAt limit steps d with
  | true =>
    obtain ⟨result, d', hverdict⟩ := verdict_of_ends hends
    rw [hverdict, hverdict, if_pos rfl, List.append_nil]
    rfl
  | false =>
    rw [verdict_of_ends_eq_false hends, verdict_of_ends_eq_false hends, settle_keeping]
    rfl

/-- The trail of a run is what its next round gives, and what comes after that. -/
theorem trail_succ :
    trail observer limit (fuel + 1) steps seen d
      = opening limit steps d ++ (verdict observer limit steps seen d).rest
          (trail observer limit fuel (steps + 1)) := by
  rw [opening]
  cases hends : endsAt limit steps d with
  | true =>
    obtain ⟨result, d', hverdict⟩ := verdict_of_ends hends
    rw [trail_of_ends hends, hverdict]
    rfl
  | false =>
    rw [verdict_of_ends_eq_false hends, if_neg Bool.false_ne_true]
    cases hround : round d with
    | error fault d' => exact trail_of_error hends hround fuel
    | ok r d' =>
      cases r with
      | trapped fault => exact trail_of_trapped hends hround fuel
      | done s =>
        rw [settle]
        cases hmeets : Breakpoint.anyMeets d'.before s d'.breakpoints with
        | error fault => exact trail_of_unreadable hends hround hmeets fuel
        | ok met =>
          rw [trail_of_done hends hround hmeets]
          cases met with
          | true => rfl
          | false =>
            dsimp only
            cases (observer.onStep seen s).2 <;> rfl

/-- An observer that keeps what it is shown does so without changing the run, and a run that
returns has shown it its trail. -/
theorem runFrom_keeping (observer : Observer σ) (limit : Option Int) (fuel steps : Nat) (seen : σ)
    (shown : List Snapshot) (d : Debugger) :
    runFrom observer.keeping limit fuel steps (seen, shown) d
      = (runFrom observer limit fuel steps seen >>= fun outcome =>
          pure (withShown (shown ++ trail observer limit fuel steps seen d) outcome)) d := by
  induction fuel generalizing steps seen shown d with
  | zero => rfl
  | succ fuel ih =>
    have hrun : runFrom observer limit (fuel + 1) steps seen d
        = (verdict observer limit steps seen d).resolve
            (runFrom observer limit fuel (steps + 1)) := runFrom_succ
    rw [runFrom_succ, verdict_keeping, trail_succ, ← List.append_assoc]
    cases hverdict : verdict observer limit steps seen d with
    | answers result seen' d' =>
      rw [hverdict] at hrun
      rw [bind_of_ok hrun, Verdict.rest, List.append_nil]
      rfl
    | faults fault d' =>
      rw [hverdict] at hrun
      rw [bind_of_error hrun]
      rfl
    | goes seen' d' =>
      rw [hverdict] at hrun
      rw [bind_of_eq hrun]
      exact ih (steps + 1) seen' _ d'

end Keeping

/-! ## Calls -/

/-- The snapshots that a run produces, also if it faults; one without a readable bound produces
none. -/
def RunCall.produced {σ : Type} (r : RunCall σ) (d : Debugger) : List Snapshot :=
  match d.boundFor r.bound with
  | .ok limit => trail r.observer limit (r.fuel + 1) 0 r.start d
  | .error _ => []

/-- The same run, with an observer that keeps what it is shown. -/
def RunCall.keeping {σ : Type} (r : RunCall σ) : RunCall (σ × List Snapshot) :=
  { bound := r.bound, observer := r.observer.keeping, start := (r.start, []), fuel := r.fuel }

/-- The snapshots that a call produces. -/
def Drive.produced (d : Debugger) : Drive → List Snapshot
  | .step => (stepInstruction.value? d).toList
  | .run r => r.produced d

theorem perform_of_bound {σ : Type} {r : RunCall σ} {limit : Option Int}
    (h : d.boundFor r.bound = .ok limit) :
    r.perform d = runFrom r.observer limit (r.fuel + 1) 0 r.start d
      ∧ r.produced d = trail r.observer limit (r.fuel + 1) 0 r.start d := by
  refine ⟨run_of_bound h _, ?_⟩
  rw [RunCall.produced, h]

theorem perform_of_boundless {σ : Type} {r : RunCall σ}
    (h : d.boundFor r.bound = .error fault) :
    r.perform d = .error fault d ∧ r.produced d = [] := by
  refine ⟨?_, by rw [RunCall.produced, h]⟩
  rw [RunCall.perform, run, get_bind, h]
  rfl

/-- What a run produces is what its observer is shown: one that keeps it ends up with these
snapshots, in this order, and nothing else about the run changes. -/
theorem RunCall.perform_keeping {σ : Type} (r : RunCall σ) (d : Debugger) :
    r.keeping.perform d
      = (r.perform >>= fun outcome => pure (withShown (r.produced d) outcome)) d := by
  cases hbound : d.boundFor r.bound with
  | error fault =>
    obtain ⟨hrun, -⟩ := perform_of_boundless hbound
    obtain ⟨hkept, -⟩ := perform_of_boundless (r := r.keeping) hbound
    rw [hkept, bind_of_error hrun]
  | ok limit =>
    obtain ⟨hrun, hproduced⟩ := perform_of_bound hbound
    obtain ⟨hkept, -⟩ := perform_of_bound (r := r.keeping) hbound
    rw [hkept, hproduced, bind_of_eq hrun]
    exact runFrom_keeping r.observer limit (r.fuel + 1) 0 r.start [] d

/-- A call is a row of rounds that give the snapshots it produces. -/
theorem drive_rounds (d : Debugger) (call : Drive) :
    Rounds d (call.produced d) (d.drive call) := by
  cases call with
  | step =>
    rw [Drive.produced, Debugger.drive]
    cases hstep : Cpu.step d.cpu with
    | ok s c =>
      have hcall := stepInstruction_of_ok hstep
      rw [value?_of_ok hcall, final_of_ok hcall]
      exact .next (.executed c hstep rfl) (.stop _ d.journal)
    | error fault c =>
      have hcall := stepInstruction_of_error hstep
      rw [value?_of_error hcall, final_of_error hcall]
      exact .stuck ⟨c, d.journal, rfl⟩
  | run r =>
    rw [Drive.produced, Debugger.drive]
    cases hbound : d.boundFor r.bound with
    | error fault =>
      obtain ⟨hrun, hproduced⟩ := perform_of_boundless hbound
      rw [hproduced, final_of_error hrun]
      exact .stop d d.journal
    | ok limit =>
      obtain ⟨hrun, hproduced⟩ := perform_of_bound hbound
      rw [hproduced, final, hrun]
      exact runFrom_rounds r.observer limit (r.fuel + 1) 0 r.start d

end Debugger

end Emu8080
