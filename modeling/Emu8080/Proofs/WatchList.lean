/-
# Emu8080.Proofs.WatchList -- what a run takes from its breakpoints

A run asks two things of its breakpoints: whether one of them stands at the
program counter, and whether one of them is met.  Conditions that are the same
answer alike (`Breakpoint.standsAt_congr`, `Breakpoint.meets_congr`), and neither
answer hangs on their order, on idle conditions, or on how often one is listed.
So lists that watch the same (`WatchSame`) give the same verdict after each
round, and by induction the same run.

That a round does not look at the list at all is what makes the two runs go in
step: `round` is blind for it (`round_blind`).  The lists are only asked between
rounds, and there they must be readable, since the scan of one may end before
a condition that the scan of the other comes to.
-/
import Emu8080.Proofs.BreakpointSet
import Emu8080.Proofs.Composed
import Emu8080.Proofs.PassOver

namespace Emu8080

set_option autoImplicit false

open Emu8080.Action (Blind mapState get_bind demand_bind)

/-! ## Conditions that are the same -/

namespace Breakpoint

variable {b b' : Breakpoint} {before : CpuState} {s : Snapshot}

theorem isEnabled_congr (h : b.agrees b' = true) : b.isEnabled = b'.isEnabled :=
  Datum.truthy_congr (agrees_iff.1 h).2.2.2.2

theorem standsAt_congr (hb : b.IsProper) (h : b.agrees b' = true) (pc : Datum) :
    b.standsAt pc = b'.standsAt pc := by
  obtain ⟨hkind, hvalue, -⟩ := agrees_iff.1 h
  rw [standsAt, standsAt, isEnabled_congr h, hkind, Datum.agrees_congr_left hb.value hvalue]

theorem touches_congr (h : b.agrees b' = true) (access : Access) :
    b.touches access = b'.touches access := by
  obtain ⟨-, -, haddress, -⟩ := agrees_iff.1 h
  rw [touches, touches, Datum.agrees_of_int? rfl, Datum.agrees_of_int? rfl,
    Datum.agreesInt_congr haddress]

/-- The field is known from what the register part denotes, and whether it counts as true. -/
theorem watched_eq (b : Breakpoint) :
    b.watched = match b.register.scalar? with
      | some (.text name) => .ok (Field.ofText? name)
      | _ => if b.register.truthy then .error .wrongKind else .ok none := by
  rw [watched]
  cases b.register with
  | float w =>
    cases hscalar : (Datum.float w).scalar? with
    | none => rfl
    | some a =>
      cases a with
      | text name => exact absurd (Option.some.inj hscalar) (Binary64.scalar_ne_text name)
      | null | number n | infinite negative | nan => rfl
  | null | bool x | int n | str name | list items | map entries => rfl

theorem watched_congr (h : b.agrees b' = true) : b.watched = b'.watched := by
  obtain ⟨-, -, -, hregister, -⟩ := agrees_iff.1 h
  rw [watched_eq, watched_eq, Datum.scalar?_congr hregister, Datum.truthy_congr hregister]

theorem is_congr (hb : b.IsProper) (h : b.agrees b' = true) (now : Reading) :
    now.is b.value = now.is b'.value := by
  obtain ⟨-, hvalue, -⟩ := agrees_iff.1 h
  cases now with
  | value v => exact Datum.agrees_congr_right hb.value hvalue
  | codes cc | memory | check => rfl

theorem meets_congr (hb : b.IsProper) (h : b.agrees b' = true) :
    b.meets before s = b'.meets before s := by
  simp only [meets, isEnabled_congr h, (agrees_iff.1 h).1, touches_congr h, watched_congr h,
    is_congr hb h]

/-- Names that a state answers to as any value does, beside those of its fields. -/
def commonNames : List String :=
  ["__annotations__", "__class__", "__dataclass_fields__", "__dataclass_params__", "__delattr__",
    "__dict__", "__dir__", "__doc__", "__eq__", "__format__", "__ge__", "__getattribute__",
    "__getstate__", "__gt__", "__hash__", "__init__", "__init_subclass__", "__le__", "__lt__",
    "__match_args__", "__module__", "__ne__", "__new__", "__reduce__", "__reduce_ex__", "__repr__",
    "__setattr__", "__sizeof__", "__str__", "__subclasshook__", "__weakref__"]

/-- Whether a condition asks for what every value has. -/
def asksCommon (b : Breakpoint) : Bool :=
  match b.register with
  | .str name => commonNames.any fun common => name == Text.ofString common
  | _ => false

/-- The condition can never be met: it is disabled, or it asks for what a state does not have,
neither as a field nor as any value has it. -/
def Idle (b : Breakpoint) : Prop :=
  b.isEnabled = false ∨ b.AsksField ∧ b.watched = .ok none ∧ b.asksCommon = false

theorem Idle.standsAt (h : b.Idle) (pc : Datum) : b.standsAt pc = false := by
  rcases h with hdisabled | ⟨hkind | hkind, -⟩
  · simp [Breakpoint.standsAt, hdisabled]
  · simp [Breakpoint.standsAt, hkind]
  · simp [Breakpoint.standsAt, hkind]

theorem Idle.not_fires (h : b.Idle) : ¬ b.Fires before s := by
  rw [← meets_eq_true_iff]
  rcases h with hdisabled | ⟨hasks, hwatched, -⟩
  · simp [meets_disabled hdisabled]
  cases henabled : b.isEnabled with
  | false => simp [meets_disabled henabled]
  | true =>
    rcases hasks with hkind | hkind
    · simp [meets, henabled, hkind, hwatched, bind, Except.bind, pure, Except.pure]
    · simp [meets, henabled, hkind, hwatched, bind, Except.bind, pure, Except.pure]

/-- A condition that a host can make, and that can be looked at: if it is enabled and asks for a
field, it names it by a text or not at all. -/
structure Watchable (b : Breakpoint) : Prop where
  proper : b.IsProper
  named : b.isEnabled = true → b.AsksField → b.Named

theorem anyMeets_of_watchable {list : List Breakpoint} (hbefore : before.Whole)
    (hs : s.state.Whole) (h : ∀ b ∈ list, b.Watchable) :
    ∃ met, anyMeets before s list = .ok met :=
  anyMeets_of_meets fun b hb =>
    meets_of_watched hbefore hs fun henabled hasks => ((h b hb).named henabled hasks).watched

end Breakpoint

/-! ## Lists that watch the same -/

/-- What is in one of the lists is in the other one as well, in any place, unless it is idle. -/
structure WatchSame (list list' : List Breakpoint) : Prop where
  forth : ∀ b ∈ list, b.Idle ∨ ∃ b' ∈ list', b.agrees b' = true
  back : ∀ b' ∈ list', b'.Idle ∨ ∃ b ∈ list, b'.agrees b = true

namespace WatchSame

variable {list list' : List Breakpoint} {before : CpuState} {s : Snapshot}

/-- What no idle condition has, and what conditions have alike that are the same, is in one of the
lists if it is in the other. -/
theorem exists_iff {P : Breakpoint → Prop} (h : WatchSame list list')
    (hlist : ∀ b ∈ list, b.Watchable) (hlist' : ∀ b ∈ list', b.Watchable)
    (hidle : ∀ b, b.Idle → ¬ P b)
    (hsame : ∀ b b', b.IsProper → b.agrees b' = true → P b → P b') :
    (∃ b ∈ list, P b) ↔ ∃ b ∈ list', P b := by
  have hone {xs ys : List Breakpoint} (hxs : ∀ b ∈ xs, b.Watchable)
      (h : ∀ b ∈ xs, b.Idle ∨ ∃ b' ∈ ys, b.agrees b' = true) :
      (∃ b ∈ xs, P b) → ∃ b ∈ ys, P b := by
    rintro ⟨b, hb, hP⟩
    rcases h b hb with hb' | ⟨b', hb', hagrees⟩
    · exact absurd hP (hidle b hb')
    · exact ⟨b', hb', hsame b b' (hxs b hb).proper hagrees hP⟩
  exact ⟨hone hlist h.forth, hone hlist' h.back⟩

variable (h : WatchSame list list') (hlist : ∀ b ∈ list, b.Watchable)
  (hlist' : ∀ b ∈ list', b.Watchable)

include h hlist hlist'

theorem any_standsAt (pc : Datum) : list.any (·.standsAt pc) = list'.any (·.standsAt pc) := by
  rw [Bool.eq_iff_iff, List.any_eq_true, List.any_eq_true]
  refine h.exists_iff hlist hlist' ?_ ?_
  · intro b hb
    rw [hb.standsAt]
    exact Bool.false_ne_true
  · intro b b' hb hagrees hstands
    rw [← Breakpoint.standsAt_congr hb hagrees]
    exact hstands

theorem anyMeets (hbefore : before.Whole) (hs : s.state.Whole) :
    Breakpoint.anyMeets before s list = Breakpoint.anyMeets before s list' := by
  obtain ⟨met, hmet⟩ := Breakpoint.anyMeets_of_watchable hbefore hs hlist
  obtain ⟨met', hmet'⟩ := Breakpoint.anyMeets_of_watchable hbefore hs hlist'
  have hsame : met = met' := by
    rw [Bool.eq_iff_iff, Breakpoint.anyMeets_eq_true_iff hmet,
      Breakpoint.anyMeets_eq_true_iff hmet']
    refine h.exists_iff hlist hlist' (fun b hb => hb.not_fires) ?_
    intro b b' hb hagrees hfires
    rw [← Breakpoint.meets_eq_true_iff] at hfires ⊢
    rw [← Breakpoint.meets_congr hb hagrees]
    exact hfires
  rw [hmet, hmet', hsame]

end WatchSame

/-! ## Rounds do not look at the list -/

theorem Action.Blind.attempt {σ α : Type} {f : σ → σ} {x : Action σ α} (hx : Blind f x) :
    Blind f (Action.attempt x) := by
  intro s
  rw [Action.attempt, Action.attempt, hx s]
  cases x s <;> rfl

namespace Debugger

/-- The same debugger with other breakpoints. -/
def watching (list : List Breakpoint) (d : Debugger) : Debugger := { d with breakpoints := list }

variable {list : List Breakpoint}

theorem onCpu_blind {α : Type} (x : Action Cpu α) : Blind (watching list) (onCpu x) :=
  Blind.within (f := watching list) (fun _ => rfl) (fun _ _ => rfl) x

theorem stepInstruction_blind : Blind (watching list) stepInstruction := by
  refine Blind.bind (.modify fun _ => rfl) fun _ => ?_
  refine (onCpu_blind Cpu.step).bind fun s => ?_
  exact Blind.bind (.modify fun _ => rfl) fun _ => .pure s

theorem skipTrapped_blind (opcode : UInt8) (pc mnemonic : Datum) :
    Blind (watching list) (skipTrapped opcode pc mnemonic) := by
  refine (onCpu_blind _).bind fun s => ?_
  exact Blind.bind (.modify fun _ => rfl) fun _ => .pure s

theorem round_blind : Blind (watching list) round := by
  refine stepInstruction_blind.attempt.bind fun came => ?_
  cases came with
  | ok s => exact .pure _
  | error fault =>
    cases fault with
    | unimplemented opcode pc mnemonic =>
      refine Blind.look (fun d => ?_) fun _ => rfl
      cases d.trapPolicy with
      | raise => exact .demand (.error _)
      | halt => exact Blind.bind (.modify fun _ => rfl) fun _ => .pure _
      | skip =>
        refine Blind.bind (.modify fun _ => rfl) fun _ => ?_
        exact (skipTrapped_blind opcode pc mnemonic).bind fun s => .pure _
    | _ => exact .demand (.error _)

/-! ## Runs -/

section Runs

variable {σ : Type} {observer : Observer σ} {limit : Option Int} {fuel steps : Nat} {seen : σ}
  {d : Debugger}

/-- The same verdict, with something made of the debugger that is left. -/
def Verdict.mapState (f : Debugger → Debugger) : Verdict σ → Verdict σ
  | .answers result seen d => .answers result seen (f d)
  | .faults fault d => .faults fault (f d)
  | .goes seen d => .goes seen (f d)

/-- Where another list answers alike, so does the run that has it. -/
theorem settle_watching {executed : EStateM.Result Fault Debugger Round}
    (h : ∀ s d, executed = .ok (.done s) d →
      Breakpoint.anyMeets d.before s list = Breakpoint.anyMeets d.before s d.breakpoints) :
    settle observer steps seen (mapState (watching list) executed)
      = (settle observer steps seen executed).mapState (watching list) := by
  cases executed with
  | error fault d => rfl
  | ok r d =>
    cases r with
    | trapped fault => rfl
    | done s =>
      have hmeets : Breakpoint.anyMeets (d.watching list).before s (d.watching list).breakpoints
          = Breakpoint.anyMeets d.before s d.breakpoints := h s d rfl
      simp only [mapState, settle]
      rw [hmeets]
      cases Breakpoint.anyMeets d.before s d.breakpoints with
      | error fault => rfl
      | ok met =>
        cases met with
        | true => rfl
        | false => cases (observer.onStep seen s).2 <;> rfl

/-- A round that is done leaves a ready machine, and keeps the list. -/
theorem round_done {s : Snapshot} {d' : Debugger} (h : d.cpu.machine.Ready)
    (hround : round d = .ok (.done s) d') :
    d'.cpu.machine.Ready ∧ d'.before.Whole ∧ s.state.Whole ∧ d'.breakpoints = d.breakpoints := by
  rcases round_cases h with ⟨s', c, journal, hdone, hstate, hc⟩ | ⟨-, hstops⟩
  · cases hround.symm.trans hdone
    exact ⟨hc, h.whole, hstate ▸ hc.whole, rfl⟩
  · exact absurd hround (hstops s d')

/-- Lists that watch the same lead to the same verdict. -/
theorem verdict_watching (h : WatchSame d.breakpoints list)
    (hd : ∀ b ∈ d.breakpoints, b.Watchable) (hlist : ∀ b ∈ list, b.Watchable)
    (hready : d.cpu.machine.Ready) :
    verdict observer limit steps seen (d.watching list)
      = (verdict observer limit steps seen d).mapState (watching list) := by
  have hstands : stands steps (d.watching list) = stands steps d :=
    congrArg (steps ≠ 0 && ·) (h.any_standsAt hd hlist d.cpu.state.pc).symm
  rw [verdict, verdict, hstands, round_blind d]
  by_cases hhere : stands steps d = true
  · rw [if_pos hhere, if_pos hhere]
    rfl
  by_cases hreached : reached limit steps = true
  · rw [if_neg hhere, if_neg hhere, if_pos hreached, if_pos hreached]
    rfl
  rw [if_neg hhere, if_neg hhere, if_neg hreached, if_neg hreached]
  refine settle_watching fun s d' hround => ?_
  obtain ⟨-, hbefore, hs, hkept⟩ := round_done hready hround
  rw [hkept]
  exact (h.anyMeets hd hlist hbefore hs).symm

/-- A run with a list that watches the same. -/
theorem runFrom_watching (h : WatchSame d.breakpoints list)
    (hd : ∀ b ∈ d.breakpoints, b.Watchable) (hlist : ∀ b ∈ list, b.Watchable)
    (hready : d.cpu.machine.Ready) :
    runFrom observer limit fuel steps seen (d.watching list)
      = mapState (watching list) (runFrom observer limit fuel steps seen d) := by
  induction fuel generalizing steps seen d with
  | zero => rfl
  | succ fuel ih =>
    rw [runFrom_succ, runFrom_succ, verdict_watching h hd hlist hready]
    have hjudged := judges observer limit steps seen d
    generalize verdict observer limit steps seen d = v at hjudged ⊢
    cases v with
    | answers result seen d' => rfl
    | faults fault d' => rfl
    | goes seen' d' =>
      cases hjudged with
      | executed _ hends hsettles =>
        generalize hround : round d = executed at hsettles
        cases hsettles with
        | goes s =>
          obtain ⟨hready', -, -, hkept⟩ := round_done hready hround
          exact ih (hkept ▸ h) (hkept ▸ hd) hready'

theorem run_watching (h : WatchSame d.breakpoints list) (hd : ∀ b ∈ d.breakpoints, b.Watchable)
    (hlist : ∀ b ∈ list, b.Watchable) (hready : d.cpu.machine.Ready) (bound : Datum) :
    run fuel bound observer seen (d.watching list)
      = mapState (watching list) (run fuel bound observer seen d) := by
  have hbound : (d.watching list).boundFor bound = d.boundFor bound := by cases bound <;> rfl
  rw [run, get_bind, get_bind, hbound]
  cases hlimit : d.boundFor bound with
  | error fault => rfl
  | ok limit =>
    rw [demand_bind rfl, demand_bind rfl]
    exact runFrom_watching h hd hlist hready

end Runs

/-- **The list of breakpoints is a set.**  Whatever is added to a new debugger and removed from it,
the list holds nothing twice, and it holds what was added and not removed after that, in the order
of the additions that opened it; removing what is not there changes nothing.  And a run does not
tell two lists apart that watch the same: in whatever order they do, and with whatever idle
conditions besides, it comes to the same end or fault, and leaves the same processor, history and
journal. -/
theorem breakpoints_form_set :
    (∀ (cpu : Cpu) (trapPolicy : TrapPolicy) (capacity limit : Datum) (s : Session)
        (edits : List Edit), attach cpu trapPolicy capacity limit = .ok s.debugger →
        (∀ e ∈ edits, e.condition.IsProper) →
        IsSetOf edits (s.edited edits).debugger.breakpoints)
      ∧ (∀ (s : Session) (b : Breakpoint), (∀ x ∈ s.debugger.breakpoints, x.agrees b = false) →
          (Request.removeBreakpoint b).answer s = .ok (.number s.debugger.breakpoints.length) s)
      ∧ ∀ (d : Debugger) (list : List Breakpoint), d.cpu.machine.Ready →
          WatchSame d.breakpoints list → (∀ b ∈ d.breakpoints, b.Watchable) →
          (∀ b ∈ list, b.Watchable) →
          ∀ {σ : Type} (observer : Observer σ) (start : σ) (fuel : Nat) (bound : Datum),
            run fuel bound observer start (d.watching list)
              = mapState (watching list) (run fuel bound observer start d) := by
  refine ⟨?_, fun s b => Session.answer_remove_absent, ?_⟩
  · intro cpu trapPolicy capacity limit s edits hattach hproper
    obtain ⟨room, -, hnew⟩ := Action.checks_eq_ok_iff.1 hattach
    have hempty : s.debugger.breakpoints = [] := by
      rw [← Except.ok.inj hnew]
    rw [Session.breakpoints_edited, hempty]
    exact isSetOf_edits edits hproper
  · intro d list hready hsame hd hlist σ observer start fuel bound
    exact run_watching hsame hd hlist hready bound

/-- A condition on the program counter that is removed and added again comes last, and it stops a
run just the same. -/
theorem breakpoints_form_set_readded :
    let stop : Breakpoint := { kind := .pcMatch, value := .int 2 }
    let watch : Breakpoint := { kind := .registerValue, register := .str "a", value := .int 5 }
    let off : Breakpoint := { kind := .memoryRead, address := .int 1, enabled := .bool false }
    let lost : Breakpoint := { kind := .registerChange, register := .str "ix" }
    let d : Debugger := { cpu := {}, before := {}, breakpoints := [stop, watch] }
    let list := [off, watch, lost, stop]
    IsSetOf [.add stop, .add watch, .add stop, .remove stop, .add stop] [watch, stop]
      ∧ ∃ d' : Debugger, run 3 .null Observer.silent () (d.watching list)
        = .ok (some ({ reason := .breakpoint, steps := 2, pc := .int 2 }, ()))
            (d'.watching list) := by
  intro stop watch off lost d list
  obtain ⟨hset, -, hrun⟩ := breakpoints_form_set
  have hmade {b : Breakpoint} (hvalue : b.value.canBeKey = true)
      (haddress : b.address.canBeKey = true) (hregister : b.register.canBeKey = true)
      (henabled : b.enabled.canBeKey = true) : b.IsProper :=
    ⟨.plain hvalue, .plain haddress, .plain hregister, .plain henabled⟩
  have hstop : stop.IsProper := hmade rfl rfl rfl rfl
  have hwatch : watch.IsProper := hmade rfl rfl rfl rfl
  constructor
  · let s : Session := { debugger := { cpu := {}, before := {} } }
    have hedits : ∀ e ∈ [Edit.add stop, .add watch, .add stop, .remove stop, .add stop],
        e.condition.IsProper := by
      simp [Edit.condition, hstop, hwatch]
    have hheld := hset {} .halt defaultCapacity .null s _ rfl hedits
    rw [Session.breakpoints_edited] at hheld
    have hlist : [Edit.add stop, .add watch, .add stop, .remove stop, .add stop].foldl
        (fun list e => e.apply list) s.debugger.breakpoints = [watch, stop] := rfl
    rwa [hlist] at hheld
  · have hready : d.cpu.machine.Ready := ⟨CpuState.whole_fresh, rfl, rfl⟩
    have hoff : off.Idle := .inl rfl
    have hidle : lost.Idle := .inr ⟨.inr rfl, rfl, rfl⟩
    have hsame : WatchSame d.breakpoints list := by
      constructor
      · intro b hb
        refine .inr ⟨b, ?_, b.agrees_refl⟩
        revert b
        simp [d, list]
      · simp only [list, List.forall_mem_cons]
        refine ⟨.inl hoff, .inr ⟨watch, ?_, watch.agrees_refl⟩, .inl hidle,
          .inr ⟨stop, ?_, stop.agrees_refl⟩, nofun⟩
        · simp [d]
        · simp [d]
    have hnamed {b : Breakpoint} (hb : b.IsProper) (h : b.Named) : b.Watchable := ⟨hb, fun _ _ => h⟩
    have hstop' : stop.Watchable := hnamed hstop (.inr rfl)
    have hwatch' : watch.Watchable := hnamed hwatch (.inl ⟨_, rfl⟩)
    have hoff' : off.Watchable := hnamed (hmade rfl rfl rfl rfl) (.inr rfl)
    have hlost' : lost.Watchable := hnamed (hmade rfl rfl rfl rfl) (.inl ⟨_, rfl⟩)
    have hd : ∀ b ∈ d.breakpoints, b.Watchable := by
      simp [d, hstop', hwatch']
    have hlist : ∀ b ∈ list, b.Watchable := by
      simp [list, hstop', hwatch', hoff', hlost']
    obtain ⟨d', hrun'⟩ : ∃ d', run 3 .null Observer.silent () d
        = .ok (some ({ reason := .breakpoint, steps := 2, pc := .int 2 }, ())) d' := ⟨_, rfl⟩
    refine ⟨d', ?_⟩
    rw [hrun d list hready hsame hd hlist, hrun']
    rfl

end Debugger

end Emu8080
