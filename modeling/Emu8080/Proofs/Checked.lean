/-
# Emu8080.Proofs.Checked -- which snapshots hold a checked state

A cycle checks the state at its end, so the snapshot of an executed instruction
holds a state that passes the check, wherever the cycle began.  An opcode that is
passed over completes as an instruction and is not checked.  Its snapshot holds
the state that was found, at the next address, whatever that state is: one that a
host has put out of its domain goes on record as it stands
(`passed_over_unchecked`), and so do the opcodes passed over after it, until an
instruction is executed.

`snapshots_checked` says that there is nothing else: a snapshot of a run passes
the check, or it holds the state that the run began with, moved along.
-/
import Emu8080.Proofs.Produced

namespace Emu8080

set_option autoImplicit false

/-! ## The check -/

namespace CpuState

/-- The check finds nothing exactly if all it looks at is in its domain. -/
theorem fault?_eq_none_iff {s : CpuState} :
    s.fault? = none
      ↔ (∀ r, ((s.get r).within? maxByte).isSome) ∧ (s.pc.within? maxWord).isSome
        ∧ (s.sp.within? maxWord).isSome ∧ (∀ f, (s.cc.get f).isBit) ∧ s.intEnable.isBit := by
  have hreg : (∀ r, ((s.get r).within? maxByte).isSome)
      ↔ ∀ r ∈ Reg.all, ((s.get r).within? maxByte).isSome :=
    ⟨fun h r _ => h r, fun h r => h r (by cases r <;> decide)⟩
  have hflag : (∀ f, (s.cc.get f).isBit) ↔ ∀ f ∈ Flag.all, (s.cc.get f).isBit :=
    ⟨fun h f _ => h f, fun h f => h f (by cases f <;> decide)⟩
  rw [hreg, hflag, fault?, bounded]
  simp [and_assoc, Option.isSome_iff_ne_none]

theorem validate_eq_ok_iff {s : CpuState} :
    s.validate = .ok () ↔ s.isChecked = true ∧ s.fault? = none := by
  rw [validate]
  cases s.isChecked with
  | true => cases s.fault? <;> simp
  | false => simp

/-- A state is in its domain if it passes the check and is on the bus. -/
theorem domain_iff {s : CpuState} : s.Domain ↔ s.validate = .ok () ∧ s.bus = .memory := by
  rw [validate_eq_ok_iff, fault?_eq_none_iff, Domain]
  constructor
  · rintro ⟨hreg, hpc, hsp, hflag, henable, hbus, hchecked⟩
    exact ⟨⟨hchecked, hreg, hpc, hsp, hflag, henable⟩, hbus⟩
  · rintro ⟨⟨hchecked, hreg, hpc, hsp, hflag, henable⟩, hbus⟩
    exact ⟨hreg, hpc, hsp, hflag, henable, hbus, hchecked⟩

/-- The state with nothing but its fields, and at a place that is in order: its check looks at the
other fields. -/
def placed (s : CpuState) : CpuState := { s with pc := .int 0, extras := [] }

/-- The check finds the same at every place that is in order. -/
theorem fault?_at (s : CpuState) {pc : Datum} (h : (pc.within? maxWord).isSome) :
    CpuState.fault? { s with pc } = s.placed.fault? := by
  have hget : ∀ r, CpuState.get { s with pc } r = s.placed.get r := by
    intro r
    cases r <;> rfl
  have hplace : (Datum.within? maxWord (.int 0)).isNone = false := by decide
  rw [← Option.not_isNone, Bool.not_eq_true'] at h
  simp only [fault?, bounded, hget, List.find?_append, List.find?_cons, h]
  simp only [placed, hplace]
  rfl

theorem fault?_moved (s : CpuState) (n : Int) :
    CpuState.fault? { s with pc := .int (n % 65536) } = s.placed.fault? :=
  s.fault?_at (Datum.isSome_within?_emod maxWord n)

/-- Where nothing is found, nothing is found beside the place. -/
theorem fault?_placed {s : CpuState} (h : s.fault? = none) : s.placed.fault? = none := by
  rw [← s.fault?_at (fault?_eq_none_iff.1 h).2.1]
  exact h

end CpuState

/-- The check of what a snapshot holds: a copy of the fields, without what a host has stored beside
them. -/
def Snapshot.check (s : Snapshot) : Except Fault Unit :=
  CpuState.validate { s.state with extras := [] }

theorem Snapshot.check_eq (s : Snapshot) :
    s.check = match s.state.fault? with
      | some fault => .error fault
      | none => .ok () := rfl

theorem CpuState.validate_placed (s : CpuState) :
    s.placed.validate = match s.placed.fault? with
      | some fault => .error fault
      | none => .ok () := rfl

namespace Debugger

variable {d d' : Debugger} {s : Snapshot} {snapshots : List Snapshot} {start : CpuState}

/-- A snapshot that passes the check, or one that a debugger with this trap policy took of the
starting state at another place. -/
def CheckedOrMoved (policy : TrapPolicy) (start : CpuState) (s : Snapshot) : Prop :=
  s.state.fault? = none
    ∨ policy = .skip ∧ ∃ n : Int, s.state = { start with pc := .int (n % 65536) }

/-- What holds of a snapshot if its round found the starting state at some place, or a state in
order. -/
theorem Gives.checked (h : d.Gives s d')
    (hstart : d.cpu.state.fault? = none ∨ ∃ pc, d.cpu.state = { start with pc }) :
    CheckedOrMoved d.trapPolicy start s := by
  cases h with
  | executed c hstep _ =>
    have hvalid := (Cpu.step_eq_ok hstep).2
    exact .inl (CpuState.validate_eq_ok_iff.1 hvalid).2
  | passed n _ hpolicy _ _ hs _ =>
    subst hs
    rcases hstart with hnone | ⟨pc, hpc⟩
    · exact .inl ((d.cpu.state.fault?_moved (n + 1)).trans (CpuState.fault?_placed hnone))
    · refine .inr ⟨hpolicy, n + 1, ?_⟩
      rw [Cpu.passing, hpc]

theorem Rounds.checked (h : Rounds d snapshots d')
    (hstart : d.cpu.state.fault? = none ∨ ∃ pc, d.cpu.state = { start with pc }) :
    ∀ s ∈ snapshots, CheckedOrMoved d.trapPolicy start s := by
  induction h with
  | stop | stuck => exact fun s hs => absurd hs List.not_mem_nil
  | @next d d' _ s rest hgives _ ih =>
    have hthis := hgives.checked hstart
    have hstate : d'.cpu.state = s.state := hgives.tied.state
    have hpolicy : d'.trapPolicy = d.trapPolicy := by
      obtain ⟨c, journal, rfl⟩ := hgives.stepped
      rfl
    -- the next round finds what this one left
    have hnext : d'.cpu.state.fault? = none ∨ ∃ pc, d'.cpu.state = { start with pc } := by
      rw [hstate]
      exact hthis.imp_right fun ⟨_, n, hn⟩ => ⟨_, hn⟩
    intro t ht
    rcases List.mem_cons.1 ht with rfl | hrest
    · exact hthis
    · rw [← hpolicy]
      exact ih hnext t hrest

theorem CheckedOrMoved.check (h : CheckedOrMoved d.trapPolicy start s) :
    s.check = .ok ()
      ∨ d.trapPolicy = .skip ∧ (∃ n : Int, s.state = { start with pc := .int (n % 65536) })
        ∧ s.check = start.placed.validate := by
  rcases h with hnone | ⟨hpolicy, n, hn⟩
  · exact .inl (by rw [s.check_eq, hnone])
  · refine .inr ⟨hpolicy, ⟨n, hn⟩, ?_⟩
    rw [s.check_eq, start.validate_placed, hn, start.fault?_moved n]

/-- Every snapshot that a processor, an instruction under control or a run produces passes the
check, whatever values the fields and the five condition codes held at the start and whatever the
settings are; with one exception.  An opcode that a run passes over before it has executed anything
leaves the state that it found on record, which passes the check just if that state does beside its
place.  An instruction that faults leaves nothing on record. -/
theorem snapshots_checked (d : Debugger) :
    (∀ s c, Cpu.step d.cpu = .ok s c → s.check = .ok ())
    ∧ (∀ s d', stepInstruction d = .ok s d' → s.check = .ok ())
    ∧ (∀ fault d', stepInstruction d = .error fault d' →
        d'.history = d.history ∧ d'.last = d.last ∧ d'.cpu.count = d.cpu.count)
    ∧ ∀ (σ : Type) (r : RunCall σ),
      (∀ s ∈ r.produced d, s.check = .ok ()
        ∨ d.trapPolicy = .skip ∧ (∃ n : Int, s.state = { d.cpu.state with pc := .int (n % 65536) })
          ∧ s.check = d.cpu.state.placed.validate)
      ∧ ((d.trapPolicy = .skip → d.cpu.state.placed.validate = .ok ()) →
        ∀ s ∈ r.produced d, s.check = .ok ()) := by
  have hstep : ∀ s c, Cpu.step d.cpu = .ok s c → s.check = .ok () := by
    intro s c hs
    have hvalid := (Cpu.step_eq_ok hs).2
    rw [s.check_eq, (CpuState.validate_eq_ok_iff.1 hvalid).2]
  refine ⟨hstep, ?_, ?_, ?_⟩
  · intro s d' hs
    cases hcpu : Cpu.step d.cpu with
    | ok s' c =>
      cases (stepInstruction_of_ok hcpu).symm.trans hs
      exact hstep s c hcpu
    | error fault c => cases (stepInstruction_of_error hcpu).symm.trans hs
  · intro fault d' hs
    cases hcpu : Cpu.step d.cpu with
    | ok s' c => cases (stepInstruction_of_ok hcpu).symm.trans hs
    | error fault' c =>
      cases (stepInstruction_of_error hcpu).symm.trans hs
      exact ⟨rfl, rfl, Cpu.count_of_step_error hcpu⟩
  · intro σ r
    have hrun : ∀ s ∈ r.produced d, CheckedOrMoved d.trapPolicy d.cpu.state s :=
      (drive_rounds d (.run r)).checked (.inr ⟨d.cpu.state.pc, rfl⟩)
    refine ⟨fun s hs => (hrun s hs).check, fun hplaced s hs => ?_⟩
    rcases (hrun s hs).check with hok | ⟨hpolicy, -, hcheck⟩
    · exact hok
    · exact hcheck.trans (hplaced hpolicy)

/-- A register that a host has put out of its domain is put on record by a run that passes over a
halt instruction: the run ends well, and its one snapshot does not pass the check. -/
theorem passed_over_unchecked :
    let m : Machine := { state := { a := .int 256 }, memory := Memory.zero.store 0 0x76 }
    let d : Debugger := { cpu := ⟨m, .preserve, 0⟩, trapPolicy := .skip, before := m.state }
    let r : RunCall Unit := { bound := .int 1, observer := .silent, start := (), fuel := 1 }
    ∃ s d', r.perform d = .ok (some ({ reason := .maxSteps, steps := 1, pc := .int 1 }, ())) d'
      ∧ r.produced d = [s] ∧ d'.last = some s
      ∧ s.check = .error (.registerRange "A" (.int 256)) := by
  intro m d r
  have hbyte : d.cpu.memory.byteAt (UInt16.ofInt 0) = 0x76 := Memory.byteAt_store _ 0 0 0x76
  have hopcode : Instr.Unimplemented (d.cpu.memory.byteAt (UInt16.ofInt 0)) := by
    rw [hbyte]
    decide
  obtain ⟨journal, hround⟩ := round_passing (d := d) (n := 0) rfl rfl hopcode
  obtain ⟨hrun, hproduced⟩ := perform_of_bound (d := d) (r := r) rfl
  have hends : endsAt (some 1) 0 d = false := rfl
  refine ⟨d.cpu.passing 0, (d.stepped (d.cpu.passing 0) (d.cpu.past 0)).noting journal,
    ?_, ?_, rfl, ?_⟩
  · rw [hrun]
    refine (runFrom_of_going hends hround rfl rfl 1).trans ?_
    refine runFrom_of_reached _ _ ?_ rfl 0
    exact Bool.false_ne_true
  · rw [hproduced]
    exact trail_of_done hends hround rfl 1
  · show Except.error (Fault.showing (.int 256) (.registerRange "A" (.int 256))) = _
    rw [Fault.showing_of_lt (by decide)]

end Debugger

end Emu8080
