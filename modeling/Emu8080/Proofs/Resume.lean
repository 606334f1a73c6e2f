/-
# Emu8080.Proofs.Resume -- a run in two parts

A run that has reached its bound can be taken up again.  The second part counts
its instructions from zero, and this is all it knows less than a single run with
both bounds put together: verdicts do not depend on the count but for the bound
and for the breakpoint at the very start (`verdict_later`).  At that breakpoint
nothing is lost, since the bound is looked at after it: where the first part has
executed something and reached its bound, no breakpoint stands.

So the run with both bounds gets to where the first part stopped
(`runFrom_reaches`), and goes on from there as the second part does.
-/
import Emu8080.Proofs.Trajectory
import Emu8080.Proofs.Verdict

namespace Emu8080

set_option autoImplicit false

/-- The same end, of a run that had executed `m` instructions before. -/
def RunResult.later (m : Nat) (result : RunResult) : RunResult :=
  { result with steps := m + result.steps }

namespace Debugger

variable {σ : Type} {observer : Observer σ} {limit : Option Int} {fuel fuel' k m n : Nat}
  {seen seen' : σ} {d d' : Debugger} {result : RunResult}

/-! ## Verdicts -/

/-- What the verdict on a run says of a longer run that it is the last part of. -/
def Verdict.later (m : Nat) : Verdict σ → Verdict σ
  | .answers result seen d => .answers (result.later m) seen d
  | .faults fault d => .faults fault d
  | .goes seen d => .goes seen d

theorem settle_later (m : Nat) (executed : EStateM.Result Fault Debugger Round) :
    settle observer (m + k) seen executed = (settle observer k seen executed).later m := by
  cases executed with
  | error fault d => rfl
  | ok r d =>
    cases r with
    | trapped fault => rfl
    | done s =>
      dsimp only [settle]
      cases Breakpoint.anyMeets d.before s d.breakpoints with
      | error fault => rfl
      | ok met =>
        cases met <;> cases (observer.onStep seen s).2 <;> rfl

theorem reached_later (m n k : Nat) :
    reached (some ((m + n : Nat) : Int)) (m + k) = reached (some (n : Int)) k := by
  simp only [reached]
  exact decide_eq_decide.2 (by omega)

/-- A verdict counts from where its run began. -/
theorem verdict_later (hstart : k = 0 → stands m d = false) :
    verdict observer (some ((m + n : Nat) : Int)) (m + k) seen d
      = (verdict observer (some (n : Int)) k seen d).later m := by
  -- only at its start does a run look past the breakpoint that it stands at
  have hstands : stands (m + k) d = stands k d := by
    by_cases hk : k = 0
    · rw [hk, Nat.add_zero, hstart hk]
      rfl
    · rw [stands, stands, decide_eq_true hk, decide_eq_true (by omega)]
  rw [verdict, verdict, hstands, reached_later, settle_later]
  split
  · rfl
  · split <;> rfl

/-- Only the look before an instruction answers with the bound. -/
theorem Settles.reason_ne {executed : EStateM.Result Fault Debugger Round}
    (h : Settles observer k seen executed (.answers result seen' d')) :
    result.reason ≠ .maxSteps := by
  intro hreason
  cases h with
  | trapped | met | asked => cases hreason

/-- The verdict on a run that has reached its bound. -/
theorem verdict_eq_answers (h : verdict observer limit k seen d = .answers result seen' d')
    (hreason : result.reason = .maxSteps) :
    seen' = seen ∧ d' = d ∧ stands k d = false ∧ reached limit k = true := by
  have hjudged := judges observer limit k seen d
  rw [h] at hjudged
  cases hjudged with
  | standing => cases hreason
  | bound hstands hreached => exact ⟨rfl, rfl, hstands, hreached⟩
  | executed _ _ hsettles => exact absurd hreason hsettles.reason_ne

/-- A run that goes on has not reached its bound, and goes on under every other bound that it has
not reached. -/
theorem verdict_eq_goes (h : verdict observer limit k seen d = .goes seen' d') :
    reached limit k = false
      ∧ ∀ limit', reached limit' k = false →
        verdict observer limit' k seen d = .goes seen' d' := by
  have hjudged := judges observer limit k seen d
  rw [h] at hjudged
  cases hjudged with
  | executed _ hends _ =>
    obtain ⟨hstands, hreached⟩ := Bool.or_eq_false_iff.1 hends
    refine ⟨hreached, fun limit' hreached' => ?_⟩
    rw [← h, verdict_of_ends_eq_false hends,
      verdict_of_ends_eq_false (Bool.or_eq_false_iff.2 ⟨hstands, hreached'⟩)]

theorem reached_eq_false_iff : reached (some (n : Int)) k = false ↔ k < n := by
  simp [reached]

/-! ## Runs -/

/-- What a run comes to, counted as the end of a longer run that had executed `m` instructions
before. -/
def laterBy (m : Nat) : EStateM.Result Fault Debugger (Option (RunResult × σ)) →
    EStateM.Result Fault Debugger (Option (RunResult × σ))
  | .ok (some (result, seen)) d => .ok (some (result.later m, seen)) d
  | .ok none d => .ok none d
  | .error fault d => .error fault d

/-- A run with a bound comes to an end within one round more than are left to it. -/
theorem runFrom_ne_none (hk : k ≤ n) (hfuel : n < k + fuel) :
    runFrom observer (some (n : Int)) fuel k seen d ≠ .ok none d' := by
  induction fuel generalizing k seen d with
  | zero => omega
  | succ fuel ih =>
    rw [runFrom_succ]
    cases hverdict : verdict observer (some (n : Int)) k seen d with
    | answers | faults =>
      intro hnone
      cases hnone
    | goes seen₁ d₁ =>
      have hk := reached_eq_false_iff.1 (verdict_eq_goes hverdict).1
      exact ih hk (by omega)

/-- More rounds than a run with a bound can use make no difference. -/
theorem runFrom_enough (hk : k ≤ n) (hfuel : n < k + fuel) (hfuel' : n < k + fuel') :
    runFrom observer (some (n : Int)) fuel k seen d
      = runFrom observer (some (n : Int)) fuel' k seen d := by
  induction fuel generalizing k seen d fuel' with
  | zero => omega
  | succ fuel ih =>
    cases fuel' with
    | zero => omega
    | succ fuel' =>
      rw [runFrom_succ, runFrom_succ]
      cases hverdict : verdict observer (some (n : Int)) k seen d with
      | answers | faults => rfl
      | goes seen₁ d₁ =>
        have hk := reached_eq_false_iff.1 (verdict_eq_goes hverdict).1
        exact ih hk (by omega) (by omega)

/-- The last part of a run counts its instructions from zero, and does all else as the run. -/
theorem runFrom_later (hstart : k = 0 → stands m d = false) :
    runFrom observer (some ((m + n : Nat) : Int)) fuel (m + k) seen d
      = laterBy m (runFrom observer (some (n : Int)) fuel k seen d) := by
  induction fuel generalizing k seen d with
  | zero => rfl
  | succ fuel ih =>
    rw [runFrom_succ, runFrom_succ, verdict_later hstart]
    cases verdict observer (some (n : Int)) k seen d with
    | answers | faults => rfl
    | goes seen₁ d₁ => exact ih fun hk => absurd hk (Nat.succ_ne_zero k)

/-- Where a run has reached its bound no breakpoint stands, and a run with a greater bound goes on
from there. -/
theorem runFrom_reaches (hk : k ≤ m)
    (h : runFrom observer (some (m : Int)) fuel k seen d = .ok (some (result, seen')) d')
    (hreason : result.reason = .maxSteps) :
    stands m d' = false
      ∧ ∀ rounds, runFrom observer (some ((m + n : Nat) : Int)) (m - k + rounds) k seen d
        = runFrom observer (some ((m + n : Nat) : Int)) rounds m seen' d' := by
  induction fuel generalizing k seen d with
  | zero => cases h
  | succ fuel ih =>
    rw [runFrom_succ] at h
    cases hverdict : verdict observer (some (m : Int)) k seen d with
    | faults fault d₁ =>
      rw [hverdict] at h
      cases h
    | answers result₁ seen₁ d₁ =>
      rw [hverdict] at h
      cases h
      obtain ⟨rfl, rfl, hstands, hreached⟩ := verdict_eq_answers hverdict hreason
      obtain rfl : k = m := by
        have hle := mt reached_eq_false_iff.2 (Bool.ne_false_iff.2 hreached)
        omega
      refine ⟨hstands, fun rounds => ?_⟩
      rw [Nat.sub_self, Nat.zero_add]
    | goes seen₁ d₁ =>
      rw [hverdict] at h
      -- where the bound is not reached, neither is the greater one
      obtain ⟨hreached, hgoes⟩ := verdict_eq_goes hverdict
      have hlt := reached_eq_false_iff.1 hreached
      obtain ⟨hstands, hrest⟩ := ih hlt h
      refine ⟨hstands, fun rounds => ?_⟩
      have hrounds : m - k + rounds = m - (k + 1) + rounds + 1 := by omega
      rw [hrounds, runFrom_succ, hgoes _ (reached_eq_false_iff.2 (by omega))]
      exact hrest rounds

theorem run_int (limit : Int) :
    run fuel (.int limit) observer seen d = runFrom observer (some limit) fuel 0 seen d := by
  have hbound : d.boundFor (.int limit) = .ok (some limit) := boundOf_int limit
  exact run_of_bound hbound fuel

/-- A run that has reached its bound `m` and is taken up again with the bound `n` does what a single
run with the bound `m + n` does: it ends for the same reason, with the same fault and in the same
debugger, and has executed as many instructions, but for the first `m`. -/
theorem run_in_two_parts {first : RunResult} {fuel₁ fuel₂ : Nat}
    (hfirst : run fuel₁ (.int m) observer seen d = .ok (some (first, seen')) d')
    (hreason : first.reason = .maxSteps) (hfuel₂ : n < fuel₂) (hfuel : m + n < fuel) :
    (∀ second seen'' d'', run fuel₂ (.int n) observer seen' d' = .ok (some (second, seen'')) d'' →
        run fuel (.int (m + n : Nat)) observer seen d
          = .ok (some ({ second with steps := m + second.steps }, seen'')) d'')
      ∧ (∀ fault d'', run fuel₂ (.int n) observer seen' d' = .error fault d'' →
        run fuel (.int (m + n : Nat)) observer seen d = .error fault d'')
      ∧ ∀ d'', run fuel₂ (.int n) observer seen' d' ≠ .ok none d'' := by
  have hwhole : run fuel (.int (m + n : Nat)) observer seen d
      = laterBy m (run fuel₂ (.int n) observer seen' d') := by
    rw [run_int] at hfirst
    obtain ⟨hstands, hrest⟩ := runFrom_reaches (n := n) (Nat.zero_le m) hfirst hreason
    rw [run_int, run_int,
      runFrom_enough (Nat.zero_le _) (by omega) (show m + n < 0 + (m - 0 + fuel₂) by omega), hrest]
    exact runFrom_later (k := 0) fun _ => hstands
  refine ⟨?_, ?_, ?_⟩
  · intro second seen'' d'' hsecond
    rw [hwhole, hsecond]
    rfl
  · intro fault d'' hsecond
    rw [hwhole, hsecond]
    rfl
  · intro d''
    rw [run_int]
    exact runFrom_ne_none (Nat.zero_le n) (by omega)

/-- A run of one instruction, from a breakpoint on, that is taken up again before a trap: the second
part halts at once, and the single run halts after one instruction. -/
theorem run_in_two_parts_at_trap :
    let d : Debugger :=
      { cpu := { machine := { memory := Memory.zero.store 1 0x76 } }
        before := {}
        breakpoints := [{ kind := .pcMatch, value := .int 0 }] }
    ∃ first second d' d'',
      run 2 (.int 1) Observer.silent () d = .ok (some (first, ())) d' ∧ first.reason = .maxSteps
      ∧ run 2 (.int 1) Observer.silent () d' = .ok (some (second, ())) d''
      ∧ run 3 (.int 2) Observer.silent () d
        = .ok (some ({ second with steps := 1 + second.steps }, ())) d''
      ∧ second.reason = .trap ∧ second.steps = 0 := by
  intro d
  have hready : d.cpu.machine.Ready := ⟨CpuState.whole_fresh, rfl, rfl⟩
  have hnop : d.cpu.machine.chip.byte d.cpu.machine.chip.pc = 0 := by
    show (Memory.zero.store 1 0x76).byteAt 0 = 0
    rw [Memory.byteAt_store, if_neg (by decide), Memory.byteAt_zero]
  have hi : Instr.ofOpcode? (d.cpu.machine.chip.byte d.cpu.machine.chip.pc) = some (.nop true) := by
    rw [hnop]
    rfl
  obtain ⟨s, c, hstep, hperforms⟩ := Cpu.step_performs hready.shows hi
  let d₁ := d.stepped s c
  have hround : round d = .ok (.done s) d₁ := round_of_ok hstep
  have hstart : endsAt (some 1) 0 d = false := rfl
  have hgoes : verdict Observer.silent (some 1) 0 () d = .goes () d₁ := by
    rw [verdict_of_ends_eq_false hstart, hround]
    rfl
  -- the breakpoint does not stand after the first instruction
  have hstands : stands 1 d₁ = false := by
    have hpc : d₁.cpu.state.pc.int? = some 1 := hperforms.shows.pc
    have hagrees : (Datum.int 0).agrees d₁.cpu.state.pc = false := by
      rw [Datum.agrees, Datum.agreesInt_of_int? hpc]
      rfl
    show (true && ((Datum.int 0).agrees d₁.cpu.state.pc || false)) = false
    rw [hagrees]
    rfl
  have hfirst : run 2 (.int 1) Observer.silent () d
      = .ok (some ({ reason := .maxSteps, steps := 1, pc := d₁.cpu.state.pc }, ())) d₁ := by
    rw [run_int, runFrom_succ, hgoes]
    exact runFrom_of_reached Observer.silent () (Bool.eq_false_iff.1 hstands) rfl 0
  -- the byte after it has no instruction
  have hshows := hperforms.shows
  have hmissing : Instr.Unimplemented 0x76 := by decide
  have hbyte : (d.cpu.machine.chip.next .preserve (.nop true)).byte 1 = 0x76 :=
    Memory.byteAt_store _ 1 1 0x76
  have hstuck := Cpu.step_of_missing hshows (hbyte ▸ hmissing)
  obtain ⟨journal, htrap⟩ := round_halt (d := d₁) rfl hstuck
  have hends : endsAt (some 1) 0 d₁ = false := rfl
  have hsecond : ∃ second d₂, run 2 (.int 1) Observer.silent () d₁ = .ok (some (second, ())) d₂
      ∧ second.reason = .trap ∧ second.steps = 0 := by
    rw [run_int]
    exact ⟨_, _, runFrom_of_trapped hends htrap 1, rfl, rfl⟩
  obtain ⟨second, d₂, hsecond, htrapped, hnone⟩ := hsecond
  obtain ⟨hwhole, -, -⟩ :=
    run_in_two_parts (m := 1) (n := 1) hfirst rfl (show 1 < 2 by decide) (show 2 < 3 by decide)
  exact ⟨_, second, d₁, d₂, hfirst, rfl, hsecond, hwhole _ _ _ hsecond, htrapped, hnone⟩

end Debugger

end Emu8080
