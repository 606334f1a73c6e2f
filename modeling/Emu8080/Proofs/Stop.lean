/-
# Emu8080.Proofs.Stop -- where a run stops, and why

Five things end a run: a breakpoint that an instruction meets, an observer that
asks for the end, a breakpoint at the program counter, the bound, and an opcode
without an implementation.  `Holds` says of each of them, along the trajectory
and without the run, that it is there after a number of instructions; the first
three need at least one.  `Ending.First` picks the least number at which one of
them is there, and of those the one that counts first.

A run goes along the trajectory as long as nothing is there (`runFrom_closes`),
so it ends at the first place and for the first cause, or has not got there yet.
-/
import Emu8080.Proofs.Trajectory

namespace Emu8080

set_option autoImplicit false

/-! ## Breakpoints -/

namespace Breakpoint

/-- What an enabled breakpoint asks of an instruction and of the state before it. -/
def Fires (b : Breakpoint) (before : CpuState) (s : Snapshot) : Prop :=
  b.isEnabled = true ∧
    match b.kind with
    | .pcMatch => False
    | .memoryRead => ∃ access ∈ s.activity, access.isRead = true ∧ b.touches access = true
    | .memoryWrite => ∃ access ∈ s.activity, access.isRead = false ∧ b.touches access = true
    | .registerValue =>
        ∃ field now, b.watched = .ok (some field) ∧ field.read s.state = .ok now
          ∧ now.is b.value = true
    | .registerChange =>
        ∃ field now past, b.watched = .ok (some field) ∧ field.read s.state = .ok now
          ∧ field.read before = .ok past ∧ now.agrees past = false

variable {b : Breakpoint} {before : CpuState} {s : Snapshot}

theorem meets_eq_true_iff : b.meets before s = .ok true ↔ b.Fires before s := by
  cases henabled : b.isEnabled with
  | false => simp [meets, Fires, henabled]
  | true =>
    cases hkind : b.kind with
    | pcMatch => simp [meets, Fires, henabled, hkind]
    | memoryRead => simp [meets, Fires, henabled, hkind]
    | memoryWrite => simp [meets, Fires, henabled, hkind]
    | registerValue =>
      simp only [meets, Fires, henabled, hkind, Bool.not_true, Bool.false_eq_true, if_false,
        true_and]
      cases hwatched : b.watched with
      | error fault => simp [bind, Except.bind]
      | ok watched =>
        cases watched with
        | none => simp [bind, Except.bind, pure, Except.pure]
        | some field =>
          cases hnow : field.read s.state with
          | error fault => simp [bind, Except.bind, hnow]
          | ok now => simp [bind, Except.bind, pure, Except.pure, hnow]
    | registerChange =>
      simp only [meets, Fires, henabled, hkind, Bool.not_true, Bool.false_eq_true, if_false,
        true_and]
      cases hwatched : b.watched with
      | error fault => simp [bind, Except.bind]
      | ok watched =>
        cases watched with
        | none => simp [bind, Except.bind, pure, Except.pure]
        | some field =>
          cases hnow : field.read s.state with
          | error fault => simp [bind, Except.bind, hnow]
          | ok now =>
            cases hpast : field.read before with
            | error fault => simp [bind, Except.bind, hnow, hpast]
            | ok past => simp [bind, Except.bind, pure, Except.pure, hnow, hpast]

theorem anyMeets_eq_true_iff {list : List Breakpoint} {met : Bool}
    (h : anyMeets before s list = .ok met) : met = true ↔ ∃ b ∈ list, b.Fires before s := by
  induction list with
  | nil =>
    cases h
    simp
  | cons b rest ih =>
    rw [anyMeets] at h
    obtain ⟨first, hfirst, hrest⟩ := Action.checks_eq_ok_iff.1 h
    simp only [List.mem_cons, exists_eq_or_imp]
    rw [← meets_eq_true_iff, hfirst]
    cases first with
    | true =>
      cases hrest
      simp
    | false =>
      rw [ih hrest]
      simp

end Breakpoint

/-! ## What ends a run -/

/-- What can end a run, in the order in which it counts. -/
inductive Ending
  | met
  | asked
  | standing
  | bound
  | trap
deriving DecidableEq

namespace Ending

def rank : Ending → Nat
  | .met => 0
  | .asked => 1
  | .standing => 2
  | .bound => 3
  | .trap => 4

/-- What the run says of it. -/
def reason : Ending → StopReason
  | .met | .standing => .breakpoint
  | .asked => .stopped
  | .bound => .maxSteps
  | .trap => .trap

theorem eq_of_rank {e e' : Ending} (h : e.rank = e'.rank) : e = e' := by
  cases e <;> cases e' <;> first | rfl | exact absurd h (by decide)

theorem rank_lt_five (e : Ending) : e.rank < 5 := by cases e <;> decide

/-- Of all that is there, this counts first. -/
structure Leads (there : Ending → Prop) (e : Ending) : Prop where
  here : there e
  before : ∀ e', e'.rank < e.rank → ¬ there e'

/-- The first place at which something is there, and what counts first of it. -/
structure First (there : Nat → Ending → Prop) (k : Nat) (e : Ending) : Prop
    extends Leads (there k) e where
  earlier : ∀ j < k, ∀ e', ¬ there j e'

theorem Leads.unique {there : Ending → Prop} {e e' : Ending} (h : Leads there e)
    (h' : Leads there e') : e = e' := by
  rcases Nat.lt_trichotomy e.rank e'.rank with hlt | heq | hgt
  · exact absurd h.here (h'.before e hlt)
  · exact eq_of_rank heq
  · exact absurd h'.here (h.before e' hgt)

theorem First.unique {there : Nat → Ending → Prop} {k k' : Nat} {e e' : Ending}
    (h : First there k e) (h' : First there k' e') : k = k' ∧ e = e' := by
  rcases Nat.lt_trichotomy k k' with hlt | rfl | hgt
  · exact absurd h.here (h'.earlier k hlt e)
  · exact ⟨rfl, h.toLeads.unique h'.toLeads⟩
  · exact absurd h'.here (h.earlier k' hgt e')

/-- One more thing in the order that is not there. -/
theorem not_there_succ {there : Ending → Prop} {e : Ending}
    (hbefore : ∀ e', e'.rank < e.rank → ¬ there e') (h : ¬ there e) :
    ∀ e', e'.rank < e.rank + 1 → ¬ there e' := by
  intro e' he'
  rcases Nat.lt_succ_iff_lt_or_eq.1 he' with hlt | heq
  · exact hbefore e' hlt
  · rw [eq_of_rank heq]
    exact h

end Ending

namespace Debugger

variable {σ : Type}

section Conditions

variable (observer : Observer σ) (limit : Option Int) (start : σ) (d : Debugger)

/-- What an observer has made of a number of instructions. -/
def watch (k : Nat) : σ := (trajectory k d).foldl (fun seen s => (observer.onStep seen s).1) start

/-- The address that the program counter stands for. -/
def place (d : Debugger) : UInt16 := d.cpu.machine.chip.pc

/-- The fault of an opcode without an implementation at the program counter. -/
def trapHere (d : Debugger) : Fault := trapFault (d.cpu.memory.byteAt d.place) d.cpu.state.pc

/-- Something that ends a run is there after `k` instructions. -/
def Holds (k : Nat) : Ending → Prop
  | .met =>
      ∃ j s, k = j + 1 ∧ (d.after j).executed = some s
        ∧ ∃ b ∈ d.breakpoints, b.Fires (d.after j).cpu.state s
  | .asked =>
      ∃ j s, k = j + 1 ∧ (d.after j).executed = some s
        ∧ (observer.onStep (watch observer start d j) s).2 = true
  | .standing =>
      1 ≤ k ∧ ∃ b ∈ d.breakpoints, b.standsAt (d.after k).cpu.state.pc = true
  | .bound => ∃ n ∈ limit, n ≤ (k : Int)
  | .trap =>
      d.trapPolicy ≠ .skip
        ∧ Instr.Unimplemented ((d.after k).cpu.memory.byteAt (d.after k).place)

end Conditions

/-- How a run closes that ends after `k` instructions with the debugger `d`: it answers with the
reason, but for a trap that the policy hands on.  The journal is left open. -/
inductive Closes (d : Debugger) (seen : σ) (k : Nat) :
    Ending → EStateM.Result Fault Debugger (Option (RunResult × σ)) → Prop
  | answered (e : Ending) (journal : Array Notice) (he : e ≠ .trap) :
      Closes d seen k e
        (.ok (some ({ reason := e.reason, steps := k, pc := d.cpu.state.pc }, seen))
          (d.noting journal))
  | halted (d' : Debugger) (hpolicy : d.trapPolicy = .halt) (hd' : d.Halted d' d.place) :
      Closes d seen k .trap
        (.ok
          (some
            ({ reason := .trap, steps := k, pc := d.cpu.state.pc, fault := some d.trapHere }, seen))
          d')
  | raised (d' : Debugger) (hpolicy : d.trapPolicy = .raise) (hd' : d.Halted d' d.place) :
      Closes d seen k .trap (.error d.trapHere d')

/-! ## One round -/

section Round

variable {observer : Observer σ} {limit : Option Int} {start : σ} {d : Debugger} {k : Nat}

theorem standing_iff (h : d.cpu.machine.Ready) (journal : Array Notice) :
    (k ≠ 0 && ((d.after k).noting journal).breakpoints.any
        (·.standsAt ((d.after k).noting journal).cpu.state.pc)) = true
      ↔ Holds observer limit start d k .standing := by
  have hkept : ((d.after k).noting journal).breakpoints = d.breakpoints :=
    (after_ready h k).2.breakpoints
  simp only [hkept, Bool.and_eq_true, decide_eq_true_eq, List.any_eq_true, Holds,
    Nat.one_le_iff_ne_zero]
  rfl

theorem reached_iff : reached limit k = true ↔ Holds observer limit start d k .bound := by
  cases limit <;> simp [reached, Holds]

theorem trap_iff (h : d.cpu.machine.Ready) :
    (d.after k).outcome? (d.after k).cpu.machine.chip = none
      ↔ Holds observer limit start d k .trap := by
  have hskips : (d.after k).skips = false ↔ d.trapPolicy ≠ .skip := by
    rw [skips, (after_ready h k).2.trapPolicy]
    exact decide_eq_false_iff_not
  rw [outcome?, Chip.outcome?_eq_none_iff, hskips]
  rfl

/-- Nothing that needs an instruction is there before the first one. -/
theorem not_holds_start (e : Ending) (he : e.rank < 2) :
    ¬ Holds observer limit start d 0 e := by
  intro hthere
  cases e with
  | met | asked =>
    obtain ⟨j, s, hj, -⟩ := hthere
    exact absurd hj (Nat.succ_ne_zero j).symm
  | standing | bound | trap => exact absurd he (by decide)

/-- What is said of the last of `k + 1` instructions is said of the one after `k` others. -/
theorem last_iff {P : Nat → Snapshot → Prop} {s : Snapshot}
    (h : (d.after k).executed = some s) :
    (∃ j t, k + 1 = j + 1 ∧ (d.after j).executed = some t ∧ P j t) ↔ P k s := by
  constructor
  · rintro ⟨j, t, hj, ht, hP⟩
    obtain rfl : k = j := Nat.succ.inj hj
    obtain rfl : s = t := Option.some.inj (h.symm.trans ht)
    exact hP
  · intro hP
    exact ⟨k, s, rfl, h, hP⟩

theorem watch_succ {s : Snapshot} (h : (d.after k).executed = some s) :
    watch observer start d (k + 1) = (observer.onStep (watch observer start d k) s).1 := by
  rw [watch, trajectory_succ, h, List.foldl_append]
  rfl

/-- What the instruction after `k` others does to a run. -/
structure Turn (observer : Observer σ) (limit : Option Int) (start : σ) (d : Debugger) (k : Nat)
    (s : Snapshot) (met : Bool) : Prop where
  meets : Breakpoint.anyMeets (d.after (k + 1)).before s (d.after (k + 1)).breakpoints = .ok met
  met_iff : met = true ↔ Holds observer limit start d (k + 1) .met
  asked_iff :
    (observer.onStep (watch observer start d k) s).2 = true
      ↔ Holds observer limit start d (k + 1) .asked
  watch : watch observer start d (k + 1) = (observer.onStep (watch observer start d k) s).1
  round : ∀ journal, ∃ journal',
    Debugger.round ((d.after k).noting journal) = .ok (.done s) ((d.after (k + 1)).noting journal')

/-- Where no trap is, an instruction is executed, in a run as on the trajectory. -/
theorem turn_of_free (h : d.cpu.machine.Ready) (hnamed : ∀ b ∈ d.breakpoints, b.Named)
    (hfree : ¬ Holds observer limit start d k .trap) :
    ∃ s met, Turn observer limit start d k s met := by
  obtain ⟨hready, hsame⟩ := after_ready h k
  cases ho : (d.after k).outcome? (d.after k).cpu.machine.chip with
  | none => exact absurd ((trap_iff h).1 ho) hfree
  | some o =>
    obtain ⟨s, c, hperforms, hproceeds⟩ := proceed_of_outcome hready.shows ho
    obtain ⟨hproceed, -⟩ := hproceeds _ rfl rfl
    have hexecuted := executed_of_ok hproceed
    have hafter : d.after (k + 1) = (d.after k).stepped s c := by
      rw [after_succ, next_of_ok hproceed]
    have hwhole : s.state.Whole := by
      rw [hperforms.state]
      exact hperforms.shows.ready.whole
    have hkept : (d.after (k + 1)).breakpoints = d.breakpoints :=
      (after_ready h (k + 1)).2.breakpoints
    have hbefore : (d.after (k + 1)).before = (d.after k).cpu.state := by
      rw [hafter]
      rfl
    obtain ⟨met, hmeets⟩ := Breakpoint.anyMeets_of_named hready.whole hwhole hnamed
    refine ⟨s, met, ?_, ?_, ?_, ?_, ?_⟩
    · rw [hbefore, hkept]
      exact hmeets
    · rw [Breakpoint.anyMeets_eq_true_iff hmeets, Holds, last_iff hexecuted]
      rfl
    · rw [Holds, last_iff hexecuted]
    · exact watch_succ hexecuted
    · intro journal
      obtain ⟨-, journal', hround⟩ := hproceeds ((d.after k).noting journal) rfl rfl
      rw [hafter]
      exact ⟨journal', hround⟩

/-- A run that goes on along the trajectory after `k` instructions. -/
def resume (observer : Observer σ) (limit : Option Int) (start : σ) (d : Debugger) (fuel k : Nat)
    (journal : Array Notice) : EStateM.Result Fault Debugger (Option (RunResult × σ)) :=
  runFrom observer limit fuel k (watch observer start d k) ((d.after k).noting journal)

variable {journal : Array Notice}

/-- At a trap the run halts there or hands it on. -/
theorem closes_at_trap (h : d.cpu.machine.Ready)
    (hends : endsAt limit k ((d.after k).noting journal) = false)
    (htrap : Holds observer limit start d k .trap) (fuel : Nat) :
    Closes (d.after k) (watch observer start d k) k .trap
      (resume observer limit start d (fuel + 1) k journal) := by
  obtain ⟨hready, hsame⟩ := after_ready h k
  have hshows : ((d.after k).noting journal).cpu.machine.Shows (d.after k).cpu.machine.chip :=
    hready.shows
  obtain ⟨-, hhalt, hraise⟩ := proceed_of_stuck hshows ((trap_iff h).2 htrap)
  rw [resume]
  cases hpolicy : (d.after k).trapPolicy with
  | halt =>
    obtain ⟨journal', hround⟩ := hhalt hpolicy
    rw [runFrom_of_trapped hends hround]
    exact .halted _ hpolicy (halted_faulted _ _ journal')
  | raise =>
    rw [runFrom_of_error hends (hraise hpolicy)]
    exact .raised _ hpolicy (halted_faulted _ _ journal)
  | skip => exact absurd (hsame.trapPolicy.symm.trans hpolicy) htrap.1

/-- Before an instruction the run closes for what is there, or nothing is. -/
theorem closes_before (h : d.cpu.machine.Ready) (journal : Array Notice)
    (hclear : ∀ e, e.rank < 2 → ¬ Holds observer limit start d k e) (fuel : Nat) :
    (∃ e, Ending.Leads (Holds observer limit start d k) e
        ∧ Closes (d.after k) (watch observer start d k) k e
          (resume observer limit start d (fuel + 1) k journal))
      ∨ (∀ e, ¬ Holds observer limit start d k e)
        ∧ endsAt limit k ((d.after k).noting journal) = false := by
  by_cases hstanding : Holds observer limit start d k .standing
  · obtain ⟨journal', hrun⟩ := runFrom_of_standing observer limit (watch observer start d k)
      ((standing_iff h journal).2 hstanding) fuel
    refine .inl ⟨.standing, ⟨hstanding, hclear⟩, ?_⟩
    rw [resume, hrun]
    exact .answered .standing journal' (by decide)
  have hstands := mt (standing_iff h journal).1 hstanding
  have hclear := Ending.not_there_succ (e := .standing) hclear hstanding
  by_cases hbound : Holds observer limit start d k .bound
  · refine .inl ⟨.bound, ⟨hbound, hclear⟩, ?_⟩
    rw [resume, runFrom_of_reached observer _ hstands (reached_iff.2 hbound)]
    exact .answered .bound journal (by decide)
  have hclear := Ending.not_there_succ (e := .bound) hclear hbound
  have hends : endsAt limit k ((d.after k).noting journal) = false := by
    rw [endsAt, Bool.or_eq_false_iff]
    exact ⟨Bool.eq_false_iff.2 hstands, Bool.eq_false_iff.2 (mt reached_iff.1 hbound)⟩
  by_cases htrap : Holds observer limit start d k .trap
  · exact .inl ⟨.trap, ⟨htrap, hclear⟩, closes_at_trap h hends htrap fuel⟩
  have hclear := Ending.not_there_succ (e := .trap) hclear htrap
  exact .inr ⟨fun e => hclear e e.rank_lt_five, hends⟩

/-- After an instruction the run closes for what it met or was asked, or goes on. -/
theorem closes_after {s : Snapshot} {met : Bool} (hturn : Turn observer limit start d k s met)
    (hends : endsAt limit k ((d.after k).noting journal) = false) (fuel : Nat) :
    (∃ e, Ending.Leads (Holds observer limit start d (k + 1)) e
        ∧ Closes (d.after (k + 1)) (watch observer start d (k + 1)) (k + 1) e
          (resume observer limit start d (fuel + 1) k journal))
      ∨ (∀ e, e.rank < 2 → ¬ Holds observer limit start d (k + 1) e)
        ∧ ∃ journal', resume observer limit start d (fuel + 1) k journal
          = resume observer limit start d fuel (k + 1) journal' := by
  obtain ⟨journal', hround⟩ := hturn.round journal
  have hmeets := hturn.meets
  have hclear : ∀ e : Ending, e.rank < 0 → ¬ Holds observer limit start d (k + 1) e :=
    fun e he => absurd he (Nat.not_lt_zero _)
  rw [hturn.watch]
  by_cases hmet : Holds observer limit start d (k + 1) .met
  · rw [hturn.met_iff.2 hmet] at hmeets
    obtain ⟨journal'', hrun⟩ := runFrom_of_met hends hround hmeets fuel
    refine .inl ⟨.met, ⟨hmet, hclear⟩, ?_⟩
    rw [resume, hrun]
    exact .answered .met journal'' (by decide)
  have hclear := Ending.not_there_succ (e := .met) hclear hmet
  rw [Bool.eq_false_iff.2 (mt hturn.met_iff.1 hmet)] at hmeets
  by_cases hasked : Holds observer limit start d (k + 1) .asked
  · refine .inl ⟨.asked, ⟨hasked, hclear⟩, ?_⟩
    rw [resume, runFrom_of_asked hends hround hmeets (hturn.asked_iff.2 hasked)]
    exact .answered .asked journal' (by decide)
  have hclear := Ending.not_there_succ (e := .asked) hclear hasked
  have hgoes : (false || (observer.onStep (watch observer start d k) s).2) = false :=
    Bool.eq_false_iff.2 (mt hturn.asked_iff.1 hasked)
  refine .inr ⟨hclear, journal', ?_⟩
  rw [resume, runFrom_of_going hends hround hmeets hgoes, resume, hturn.watch]

end Round

/-! ## The run -/

section Run

variable {d : Debugger} (observer : Observer σ) (limit : Option Int) (start : σ)

/-- A run on the trajectory, with nothing behind it that would have ended it, ends at the first
place where something does, or has used its rounds up before. -/
theorem resume_closes (h : d.cpu.machine.Ready) (hnamed : ∀ b ∈ d.breakpoints, b.Named)
    (fuel k : Nat) (journal : Array Notice)
    (hbehind : ∀ j < k, ∀ e, ¬ Holds observer limit start d j e)
    (hclear : ∀ e, e.rank < 2 → ¬ Holds observer limit start d k e) :
    (∃ j e, Ending.First (Holds observer limit start d) j e
        ∧ Closes (d.after j) (watch observer start d j) j e
          (resume observer limit start d fuel k journal))
      ∨ (∃ d', resume observer limit start d fuel k journal = .ok none d')
        ∧ ∀ j < k + fuel, ∀ e, ¬ Holds observer limit start d j e := by
  -- a round moves the place by one, and with it what is known to be behind
  induction fuel generalizing k journal with
  | zero => exact .inr ⟨⟨_, rfl⟩, hbehind⟩
  | succ fuel ih =>
    rcases closes_before h journal hclear fuel with
      ⟨e, hleads, hcloses⟩ | ⟨hhere, hends⟩
    · exact .inl ⟨k, e, ⟨hleads, hbehind⟩, hcloses⟩
    have hbehind : ∀ j < k + 1, ∀ e, ¬ Holds observer limit start d j e := by
      intro j hj
      rcases Nat.lt_succ_iff_lt_or_eq.1 hj with hlt | rfl
      · exact hbehind j hlt
      · exact hhere
    obtain ⟨s, met, hturn⟩ := turn_of_free h hnamed (hhere .trap)
    rcases closes_after hturn hends fuel with ⟨e, hleads, hcloses⟩ | ⟨hclear, journal', hrun⟩
    · exact .inl ⟨k + 1, e, ⟨hleads, hbehind⟩, hcloses⟩
    have hrounds : k + (fuel + 1) = k + 1 + fuel := by omega
    rw [hrun, hrounds]
    exact ih (k + 1) journal' hbehind hclear

/-- A run ends after the least number of instructions at which something is there that ends it, and
for what counts first of that: a breakpoint that the last instruction met, the wish of the observer,
a breakpoint at the program counter, the bound, an opcode without an implementation.  It gets there
with any number of rounds that is greater, and with fewer rounds it ends there or not at all. -/
theorem run_stops_first (h : d.cpu.machine.Ready) (hnamed : ∀ b ∈ d.breakpoints, b.Named)
    {bound : Datum} (hbound : d.boundFor bound = .ok limit) :
    (∀ fuel, (∃ d', run fuel bound observer start d = .ok none d')
        ∨ ∃ k e, Ending.First (Holds observer limit start d) k e
          ∧ Closes (d.after k) (watch observer start d k) k e (run fuel bound observer start d))
      ∧ ∀ k e, Ending.First (Holds observer limit start d) k e → ∀ fuel, k < fuel →
        Closes (d.after k) (watch observer start d k) k e (run fuel bound observer start d) := by
  have hruns : ∀ fuel, (∃ k e, Ending.First (Holds observer limit start d) k e
        ∧ Closes (d.after k) (watch observer start d k) k e (run fuel bound observer start d))
      ∨ (∃ d', run fuel bound observer start d = .ok none d')
        ∧ ∀ j < fuel, ∀ e, ¬ Holds observer limit start d j e := by
    intro fuel
    have hcloses := resume_closes observer limit start h hnamed fuel 0 d.journal
      (fun j hj => absurd hj (Nat.not_lt_zero j)) not_holds_start
    rw [Nat.zero_add] at hcloses
    rw [run_of_bound hbound]
    exact hcloses
  constructor
  · intro fuel
    rcases hruns fuel with hcloses | ⟨hunfinished, -⟩
    · exact .inr hcloses
    · exact .inl hunfinished
  · intro k e hfirst fuel hfuel
    rcases hruns fuel with ⟨k', e', hfirst', hcloses⟩ | ⟨-, hnothing⟩
    · obtain ⟨rfl, rfl⟩ := hfirst.unique hfirst'
      exact hcloses
    · exact absurd hfirst.here (hnothing k hfuel e)

end Run

/-- A breakpoint where the run begins does not keep it from its first instruction.  After that the
observer who asks for the end comes before the next breakpoint, and both come before the bound. -/
theorem run_stops_for_observer :
    let d : Debugger :=
      { cpu := {}
        before := {}
        limit := .int 1
        breakpoints :=
          [{ kind := .pcMatch, value := .int 0 }, { kind := .pcMatch, value := .int 1 }] }
    let observer : Observer Unit := ⟨fun _ _ => ((), true)⟩
    ∀ fuel, 1 < fuel → ∃ result d', run fuel .null observer () d = .ok (some (result, ())) d'
      ∧ result.reason = .stopped ∧ result.steps = 1 ∧ result.pc.int? = some 1 := by
  intro d observer fuel hfuel
  have hready : d.cpu.machine.Ready := ⟨CpuState.whole_fresh, rfl, rfl⟩
  have hnamed : ∀ b ∈ d.breakpoints, b.Named := by
    intro b hb
    simp only [d, List.mem_cons, List.not_mem_nil, or_false] at hb
    rcases hb with rfl | rfl <;> exact .inr rfl
  have hbyte : d.cpu.machine.chip.byte d.cpu.machine.chip.pc = 0 := by
    simp [d, Machine.chip, Memory.byteAt, Memory.zero, Memory.filled]
  have ho : d.outcome? d.cpu.machine.chip
      = some
          { operation := Machine.operationOf (.nop true) d.cpu.machine.chip
            cycles := d.cpu.machine.chip.cycles (.nop true)
            next := d.cpu.machine.chip.next .preserve (.nop true) } := by
    rw [outcome?, Chip.outcome?, hbyte]
    rfl
  obtain ⟨s, c, hperforms, hproceeds⟩ := proceed_of_outcome hready.shows ho
  obtain ⟨hproceed, -⟩ := hproceeds d rfl rfl
  have hfirst : Ending.First (Holds observer (some 1) () d) 1 .asked := by
    refine ⟨⟨⟨0, s, rfl, executed_of_ok hproceed, rfl⟩, ?_⟩, ?_⟩
    · intro e he hthere
      cases e with
      | met =>
        obtain ⟨j, s', -, -, b, hb, -, hfires⟩ := hthere
        simp only [d, List.mem_cons, List.not_mem_nil, or_false] at hb
        rcases hb with rfl | rfl <;> exact hfires
      | asked | standing | bound | trap => exact absurd he (by decide)
    · intro j hj e hthere
      obtain rfl := Nat.lt_one_iff.1 hj
      cases e with
      | met | asked => exact not_holds_start _ (by decide) hthere
      | standing => exact absurd hthere.1 (by decide)
      | bound =>
        obtain ⟨n, hn, hle⟩ := hthere
        cases hn
        exact absurd hle (by decide)
      | trap =>
        have hmissing : Instr.Unimplemented (d.cpu.machine.chip.byte d.cpu.machine.chip.pc) :=
          hthere.2
        rw [hbyte] at hmissing
        exact absurd hmissing (by decide)
  have hbound : d.boundFor .null = .ok (some 1) := rfl
  obtain ⟨-, hcloses⟩ := run_stops_first observer (some 1) () hready hnamed hbound
  have hafter : d.after 1 = d.stepped s c := by
    rw [after_succ]
    exact next_of_ok hproceed
  have hpc : (d.after 1).cpu.state.pc.int? = some 1 := by
    rw [hafter]
    exact hperforms.shows.pc
  have hend := hcloses 1 .asked hfirst fuel hfuel
  generalize run fuel .null observer () d = outcome at hend ⊢
  cases hend with
  | answered journal he => exact ⟨_, _, rfl, rfl, rfl, hpc⟩

end Debugger

end Emu8080
