/-
# Emu8080.Proofs.Host -- a host at work, step by step

A host calls on a debugger and its processor in any order: it executes, runs with
a bound, passes over operations, resets, restores states, sets fields, and uses
the memory as it likes.  `Reaches` says what debugger such calls lead to from a
fresh one, and keeps its own account of the instructions that were completed
since the last reset.

Each call keeps the debugger sound, so the machine is always ready, the account
is the count of the processor, and what executes faults at traps only.  Calls may
fail; a call that fails leaves what it had done.
-/
import Emu8080.Proofs.Run
import Emu8080.Session

namespace Emu8080

set_option autoImplicit false

open Emu8080.Action (get_bind demand_bind bind_of_ok bind_of_error final final_of_ok
  final_of_error final_within final_map)

/-! ## Changes of the state -/

/-- A field that is put together from stored ones, and takes any integer. -/
def Field.IsDerived : Field → Prop
  | .pair .. | .flagByte | .flag _ => True
  | _ => False

namespace CpuState

/-- Replace the state by what becomes of it, unless that is refused. -/
def revise (f : CpuState → Except Fault CpuState) : Action CpuState Unit := do
  MonadState.set (← Action.demand (f (← MonadState.get)))

theorem final_revise (f : CpuState → Except Fault CpuState) (s : CpuState) :
    (revise f).final s = match f s with
      | .ok s' => s'
      | .error _ => s := by
  rw [revise, final, get_bind]
  cases f s <;> rfl

theorem final_assign (name : Text) (value : Datum) (s : CpuState) :
    (assign [(name, value)]).final s = match s.write name value with
      | .ok s' => s'
      | .error _ => s := by
  rw [assign, final, get_bind]
  cases s.write name value <;> rfl

/-- Copying the fields of a state onto a bus keeps them whole. -/
theorem Whole.onBus {s : CpuState} (h : s.Whole) : Whole { s with bus := .memory, extras := [] } :=
  ⟨h.reg, h.sp, h.pc, h.flag, h.intEnable⟩

end CpuState

namespace Machine

variable {m : Machine}

theorem Ready.setWord (h : m.Ready) (high low : Reg) (value : Int) :
    Ready { m with state := m.state.setWord high low value } where
  whole := (h.whole.set high (Datum.isSome_within?_emod CpuState.maxByte (value / 256))).set low
    (Datum.isSome_within?_emod CpuState.maxByte value)
  bus := by rw [CpuState.setWord, CpuState.bus_set, CpuState.bus_set]; exact h.bus
  checked := by rw [CpuState.setWord, isChecked_set, isChecked_set]; exact h.checked

theorem Ready.setCodes (h : m.Ready) {cc : ConditionCodes}
    (hcc : ∀ f, ((cc.get f).within? 1).isSome) :
    Ready { m with state := { m.state with cc } } where
  whole := { h.whole with flag := hcc }
  bus := h.bus
  checked := h.checked

/-- Writing a derived field leaves a ready machine ready. -/
theorem Ready.write (h : m.Ready) {field : Field} (hfield : field.IsDerived) {value : Datum}
    {s : CpuState} (hwrite : field.write m.state value = .ok s) : Ready { m with state := s } := by
  cases field with
  | pair high low =>
    obtain ⟨n, -, hs⟩ := Action.checks_eq_ok_iff.1 hwrite
    cases hs
    exact h.setWord high low n
  | flagByte =>
    obtain ⟨n, -, hs⟩ := Action.checks_eq_ok_iff.1 hwrite
    cases hs
    apply h.setCodes
    intro f
    rw [ConditionCodes.ofByte, Flags.get_ofFn]
    exact Datum.isSome_within?_bit (ConditionCodes.int?_bit _)
  | flag f =>
    cases hwrite
    apply h.setCodes
    intro g
    by_cases hg : g = f
    · subst hg
      rw [Flags.get_set_self]
      exact Datum.isSome_within?_bit (ConditionCodes.int?_bit _)
    · rw [Flags.get_set_of_ne _ hg]
      exact h.whole.flag g
  | pc | sp | reg r | codes | intEnable | memory | check => exact hfield.elim

theorem Ready.setPair (h : m.Ready) {p : Pair} {value : Datum} {s : CpuState}
    (hset : m.state.setPair p value = .ok s) : Ready { m with state := s } := by
  obtain ⟨n, -, hs⟩ := Action.checks_eq_ok_iff.1 hset
  cases p with
  | bc => cases hs; exact h.setWord .b .c n
  | de => cases hs; exact h.setWord .d .e n
  | hl => cases hs; exact h.setWord .h .l n
  | sp =>
    cases hs
    exact ⟨{ h.whole with sp := Datum.isSome_within?_emod CpuState.maxWord n }, h.bus, h.checked⟩

end Machine

/-! ## Calls -/

namespace Debugger

/-- What a host asks of a debugger and of its processor. -/
inductive Call : Type 1
  /-- A cycle of the processor itself, past the debugger. -/
  | cycle
  | step
  | run {σ : Type} (bound : Datum) (observer : Observer σ) (start : σ)
  | skip (pc : Datum) (op : Operation)
  | reset
  | restore (s : CpuState)
  | setPair (p : Pair) (value : Datum)
  | assign (name : Text) (value : Datum)
  | read (address : Datum)
  | write (address data : Datum)
  | load (address : Datum) (values : List Datum)
  | addBreakpoint (b : Breakpoint)
  | removeBreakpoint (b : Breakpoint)
  | attach (trapPolicy : TrapPolicy) (capacity limit : Datum)

namespace Call

/-- Run an action on the state. -/
def onState {α : Type} (x : Action CpuState α) : Action Debugger α :=
  onCpu (Cpu.onMachine (Machine.onState x))

/-- An action that comes to its end if it does not fault. -/
def served {α : Type} (x : Action Debugger α) : Action Debugger Bool := x >>= fun _ => pure true

/-- Answer a call and say whether it came to its end; a run that uses up its rounds does not. -/
def perform : Call → Action Debugger Bool
  | .cycle => served (onCpu Cpu.step)
  | .step => served stepInstruction
  | .run bound observer start => do
      let d ← get
      let outcome ← Debugger.run (Session.roundsFor (d.boundFor bound)) bound observer start
      return outcome.isSome
  | .skip pc op => served (onCpu (Cpu.skip pc op))
  | .reset => served (onCpu (modify Cpu.reset))
  | .restore s => served (onCpu (modify (·.restore s)))
  | .setPair p value => served (onState (CpuState.revise (·.setPair p value)))
  | .assign name value => served (onState (CpuState.assign [(name, value)]))
  | .read address => served (onCpu (Cpu.onMemory (Memory.read address)))
  | .write address data => served (onCpu (Cpu.onMemory (Memory.write address data)))
  | .load address values => served (onCpu (Cpu.onMemory (Memory.load address values)))
  | .addBreakpoint b => served (modify fun d => { d with breakpoints := b.insert d.breakpoints })
  | .removeBreakpoint b => served (modify fun d => { d with breakpoints := b.erase d.breakpoints })
  | .attach trapPolicy capacity limit => do
      let d ← get
      let fresh ← Action.demand (Debugger.attach d.cpu trapPolicy capacity limit)
      served (set (fresh.noting d.journal))

/-- What a host is held to: runs have a bound, skipped operations a place and a length, restored
states are whole, fields are set through derived ones, and breakpoints name what they watch. -/
def Allowed (d : Debugger) : Call → Prop
  | .run bound _ _ => ∃ n : Int, d.boundFor bound = .ok (some n)
  | .skip pc op => pc.int?.isSome ∧ op.length.int?.isSome
  | .restore s => s.Whole
  | .assign name _ => ∃ field, Field.ofText? name = some field ∧ field.IsDerived
  | .addBreakpoint b => b.Named
  | _ => True

/-- Whether a call executes what the program counter points to. -/
def executes : Call → Bool
  | .cycle | .step | .run .. => true
  | _ => false

/-- The snapshot of an action that gives one, if it succeeds. -/
def recorded {σ : Type} (x : Action σ Snapshot) (s : σ) : List Snapshot :=
  match x s with
  | .ok snapshot _ => [snapshot]
  | .error _ _ => []

/-- The instructions that a call completes. -/
def completed (d : Debugger) : Call → List Snapshot
  | .cycle => recorded Cpu.step d.cpu
  | .step => recorded stepInstruction d
  | .skip pc op => recorded (Cpu.skip pc op) d.cpu
  | .run bound observer start =>
      match d.boundFor bound with
      | .ok limit => trail observer limit (Session.roundsFor (.ok limit)) 0 start d
      | .error _ => []
  | _ => []

/-- The account of completed instructions after a call; a reset begins a new one. -/
def account (d : Debugger) (n : Nat) (call : Call) : Nat :=
  match call with
  | .reset => 0
  | _ => n + (call.completed d).length

end Call

/-- The debuggers that allowed calls lead to from a fresh one, each with the account of the
instructions completed since the last reset.  A call that faults is a call as well. -/
inductive Reaches : Nat → Debugger → Prop
  | fresh {memory : Memory} {policy : FlagPolicy} {s : CpuState} {trapPolicy : TrapPolicy}
      {capacity limit : Datum} {d : Debugger} (hs : s.Whole)
      (hd : attach ((Cpu.ofMemory memory policy).restore s) trapPolicy capacity limit = .ok d) :
      Reaches 0 d
  | call {n : Nat} {d : Debugger} (call : Call) (hd : Reaches n d) (hcall : call.Allowed d) :
      Reaches (call.account d n) (call.perform.final d)

/-! ## Calls that execute -/

section Executing

variable {d : Debugger} {n : Nat}

theorem Sound.withCpu (h : d.Sound n) {c : Cpu} {k : Nat} (hc : c.ReadyAt k) :
    Sound { d with cpu := c } k where
  cpu := hc
  before := h.before
  named := h.named

theorem served_of_ok {α : Type} {x : Action Debugger α} {a : α} {d' : Debugger}
    (h : x d = .ok a d') : Call.served x d = .ok true d' :=
  bind_of_ok h _

theorem served_of_error {α : Type} {x : Action Debugger α} {fault : Fault} {d' : Debugger}
    (h : x d = .error fault d') : Call.served x d = .error fault d' :=
  bind_of_error h _

theorem recorded_of_ok {σ : Type} {x : Action σ Snapshot} {s s' : σ} {snapshot : Snapshot}
    (h : x s = .ok snapshot s') : Call.recorded x s = [snapshot] := by
  rw [Call.recorded, h]

theorem recorded_of_error {σ : Type} {x : Action σ Snapshot} {s s' : σ} {fault : Fault}
    (h : x s = .error fault s') : Call.recorded x s = [] := by
  rw [Call.recorded, h]

/-- How a call can come out that executes something: it ends, or hands on a trap. -/
inductive CallSound (call : Call) (d : Debugger) (n : Nat) : Prop
  | ended (d' : Debugger) (hperform : call.perform d = .ok true d')
      (hd' : d'.Sound (call.account d n))
  | raised (fault : Fault) (d' : Debugger) (hperform : call.perform d = .error fault d')
      (hfault : fault.IsTrap) (hd' : d'.Sound (call.account d n))

theorem cycle_sound (h : d.Sound n) : CallSound .cycle d n := by
  have haccount : Call.cycle.account d n = n + (Call.recorded Cpu.step d.cpu).length := rfl
  rcases Cpu.step_ready h.cpu with ⟨s, c, hstep, -, hc⟩ | ⟨opcode, c, hstep, hc⟩
  · refine .ended _ (served_of_ok (onCpu_of_ok hstep)) ?_
    rw [haccount, recorded_of_ok hstep]
    exact h.withCpu hc
  · refine .raised _ _ (served_of_error (onCpu_of_error hstep)) ⟨_, _, _, rfl⟩ ?_
    rw [haccount, recorded_of_error hstep]
    exact h.withCpu hc

theorem step_sound (h : d.Sound n) : CallSound .step d n := by
  have haccount : Call.step.account d n = n + (Call.recorded stepInstruction d).length := rfl
  rcases stepInstruction_sound h with ⟨s, d', hstep, hd'⟩ | ⟨fault, d', hstep, hfault, hd'⟩
  · refine .ended _ (served_of_ok hstep) ?_
    rw [haccount, recorded_of_ok hstep]
    exact hd'
  · refine .raised _ _ (served_of_error hstep) hfault ?_
    rw [haccount, recorded_of_error hstep]
    exact hd'

theorem run_sound {σ : Type} (h : d.Sound n) {bound : Datum} (observer : Observer σ) (start : σ)
    (hcall : (Call.run bound observer start).Allowed d) :
    CallSound (.run bound observer start) d n := by
  obtain ⟨limit, hlimit⟩ := hcall
  have hrounds : Session.roundsFor (d.boundFor bound) = limit.toNat + 1 := by
    rw [hlimit]
    rfl
  have hrun : Debugger.run (limit.toNat + 1) bound observer start d
      = runFrom observer (some limit) (limit.toNat + 1) 0 start d :=
    run_of_bound hlimit (limit.toNat + 1)
  have haccount : (Call.run bound observer start).account d n
      = n + (trail observer (some limit) (limit.toNat + 1) 0 start d).length := by
    simp only [Call.account, Call.completed, hlimit]
    rfl
  cases runFrom_sound observer (limit.toNat + 1) start (Nat.zero_le limit.toNat) (by omega) h with
  | returned result seen d' houtcome _ hd' =>
    refine .ended d' ?_ (haccount ▸ hd')
    rw [Call.perform, get_bind, hrounds, bind_of_ok (hrun.trans houtcome)]
    rfl
  | raised fault d' houtcome hfault hd' =>
    refine .raised fault d' ?_ hfault (haccount ▸ hd')
    rw [Call.perform, get_bind, hrounds, bind_of_error (hrun.trans houtcome)]

theorem execute_sound (h : d.Sound n) {call : Call} (hcall : call.Allowed d)
    (hexecutes : call.executes = true) : CallSound call d n := by
  cases call with
  | cycle => exact cycle_sound h
  | step => exact step_sound h
  | run bound observer start => exact run_sound h observer start hcall
  | _ => exact absurd hexecutes Bool.false_ne_true

end Executing

/-! ## Every call -/

section Every

variable {d : Debugger} {n : Nat}

theorem CallSound.final {call : Call} (h : CallSound call d n) :
    (call.perform.final d).Sound (call.account d n) := by
  cases h with
  | ended d' hperform hd' =>
    rw [final_of_ok hperform]
    exact hd'
  | raised fault d' hperform _ hd' =>
    rw [final_of_error hperform]
    exact hd'

theorem final_served {α : Type} (x : Action Debugger α) (d : Debugger) :
    (Call.served x).final d = x.final d := final_map x _ d

theorem final_onCpu {α : Type} (x : Action Cpu α) (d : Debugger) :
    (onCpu x).final d = { d with cpu := x.final d.cpu } := final_within _ x d

theorem final_onState {α : Type} (x : Action CpuState α) (d : Debugger) :
    (Call.onState x).final d
      = { d with
          cpu := { d.cpu with
            machine := { d.cpu.machine with state := x.final d.cpu.machine.state } } } := by
  rw [Call.onState, final_onCpu, Cpu.onMachine, final_within, Machine.onState, final_within]

/-- Memory calls leave the state and the count alone. -/
theorem Sound.onMemory (h : d.Sound n) {α : Type} (x : Action Memory α) :
    ((onCpu (Cpu.onMemory x)).final d).Sound n := by
  rw [final_onCpu, Cpu.onMemory, Cpu.onMachine, final_within, Machine.onMemory, final_within]
  exact h.withCpu ⟨h.cpu.ready.of_state rfl, h.cpu.count⟩

/-- A change of the state that leaves the machine ready, or is refused. -/
theorem Sound.onState (h : d.Sound n) {x : Action CpuState Unit} {outcome : Except Fault CpuState}
    (hfinal : x.final d.cpu.machine.state = match outcome with
      | .ok s => s
      | .error _ => d.cpu.machine.state)
    (hready : ∀ s, outcome = .ok s → Machine.Ready { d.cpu.machine with state := s }) :
    ((Call.onState x).final d).Sound n := by
  rw [final_onState, hfinal]
  cases houtcome : outcome with
  | ok s => exact h.withCpu ⟨hready s houtcome, h.cpu.count⟩
  | error fault => exact h.withCpu ⟨h.cpu.ready, h.cpu.count⟩

theorem Sound.skip (h : d.Sound n) {pc : Datum} {op : Operation}
    (hcall : (Call.skip pc op).Allowed d) :
    ((Call.skip pc op).perform.final d).Sound ((Call.skip pc op).account d n) := by
  obtain ⟨s, c, hskip, -, hc⟩ := Cpu.skip_ready h.cpu hcall.1 hcall.2
  have haccount : (Call.skip pc op).account d n
      = n + (Call.recorded (Cpu.skip pc op) d.cpu).length := rfl
  rw [haccount, recorded_of_ok hskip, Call.perform, final_served, final_onCpu, final_of_ok hskip]
  exact h.withCpu hc

theorem Sound.addBreakpoint (h : d.Sound n) {b : Breakpoint} (hb : b.Named) :
    Sound { d with breakpoints := b.insert d.breakpoints } n where
  cpu := h.cpu
  before := h.before
  named b' hb' := by
    have hinsert : b' ∈ b.insert d.breakpoints := hb'
    rw [Breakpoint.insert] at hinsert
    split at hinsert
    · exact h.named b' hinsert
    · rcases List.mem_append.1 hinsert with hold | hnew
      · exact h.named b' hold
      · rw [List.mem_singleton.1 hnew]
        exact hb

theorem Sound.removeBreakpoint (h : d.Sound n) (b : Breakpoint) :
    Sound { d with breakpoints := b.erase d.breakpoints } n where
  cpu := h.cpu
  before := h.before
  named b' hb' := h.named b' (List.mem_of_mem_eraseP hb')

theorem Sound.attach (h : d.Sound n) {trapPolicy : TrapPolicy} {capacity limit : Datum}
    {fresh : Debugger} (hfresh : Debugger.attach d.cpu trapPolicy capacity limit = .ok fresh) :
    fresh.Sound n := by
  obtain ⟨bound, -, hd⟩ := Action.checks_eq_ok_iff.1 hfresh
  cases hd
  exact ⟨h.cpu, h.cpu.ready.whole, fun b hb => nomatch hb⟩

/-- Every call that a host is allowed keeps a debugger sound, and the count with the account. -/
theorem Call.sound (h : d.Sound n) {call : Call} (hcall : call.Allowed d) :
    (call.perform.final d).Sound (call.account d n) := by
  cases call with
  | cycle => exact (cycle_sound h).final
  | step => exact (step_sound h).final
  | run bound observer start => exact (run_sound h observer start hcall).final
  | skip pc op => exact h.skip hcall
  | reset =>
    rw [perform, final_served, final_onCpu]
    exact h.withCpu ⟨⟨CpuState.whole_fresh, rfl, rfl⟩, rfl⟩
  | restore s =>
    rw [perform, final_served, final_onCpu]
    have hs : s.Whole := hcall
    exact h.withCpu ⟨⟨hs.onBus, rfl, rfl⟩, h.cpu.count⟩
  | setPair p value =>
    rw [perform, final_served]
    exact h.onState (CpuState.final_revise _ _) fun s hs => h.cpu.ready.setPair hs
  | assign name value =>
    rw [perform, final_served]
    apply h.onState (CpuState.final_assign name value _)
    intro s hs
    obtain ⟨field, hname, hderived⟩ := hcall
    rw [CpuState.write, hname] at hs
    exact h.cpu.ready.write hderived hs
  | read address =>
    rw [perform, final_served]
    exact h.onMemory _
  | write address data =>
    rw [perform, final_served]
    exact h.onMemory _
  | load address values =>
    rw [perform, final_served]
    exact h.onMemory _
  | addBreakpoint b =>
    rw [perform, final_served]
    exact h.addBreakpoint hcall
  | removeBreakpoint b =>
    rw [perform, final_served]
    exact h.removeBreakpoint b
  | attach trapPolicy capacity limit =>
    cases hfresh : Debugger.attach d.cpu trapPolicy capacity limit with
    | ok fresh =>
      have hset : (Call.attach trapPolicy capacity limit).perform d
          = .ok true (fresh.noting d.journal) := by
        rw [perform, get_bind, demand_bind hfresh]
        rfl
      rw [final_of_ok hset]
      exact (h.attach hfresh).noting d.journal
    | error fault =>
      have hrefused : (Call.attach trapPolicy capacity limit).perform d = .error fault d := by
        rw [perform, get_bind, hfresh]
        rfl
      rw [final_of_error hrefused]
      exact h

/-- Whatever a host has done, the debugger is sound, and the account is its count. -/
theorem Reaches.sound (h : Reaches n d) : d.Sound n := by
  induction h with
  | fresh hs hd =>
    obtain ⟨bound, -, hd⟩ := Action.checks_eq_ok_iff.1 hd
    cases hd
    exact ⟨⟨⟨hs.onBus, rfl, rfl⟩, rfl⟩, hs.onBus, fun b hb => nomatch hb⟩
  | call call _ hcall ih => exact Call.sound ih hcall

/-- Whatever a host has done, the state is in its domain, the memory holds a byte at each of its
addresses, and the processor has counted the instructions completed since the last reset.  What
executes next comes to its end or reaches an opcode without an implementation; it faults in no
other way. -/
theorem session_stays_in_domain (h : Reaches n d) :
    d.cpu.machine.Ready
    ∧ d.cpu.memory.bytes.toArray.size = 65536
    ∧ (∀ a, (d.cpu.memory.byteAt a).toNat ≤ 255)
    ∧ d.cpu.count = n
    ∧ ∀ call : Call, call.Allowed d → call.executes = true →
      (∃ d', call.perform d = .ok true d')
      ∨ ∃ opcode pc mnemonic d',
          call.perform d = .error (.unimplemented opcode pc mnemonic) d' := by
  have hsound := h.sound
  refine ⟨hsound.cpu.ready, d.cpu.memory.bytes.size_toArray, ?_, hsound.cpu.count, ?_⟩
  · intro a
    exact Nat.le_of_lt_succ (UInt8.toNat_lt _)
  · intro call hcall hexecutes
    cases execute_sound hsound hcall hexecutes with
    | ended d' hperform _ => exact .inl ⟨d', hperform⟩
    | raised fault d' hperform hfault _ =>
      obtain ⟨opcode, pc, mnemonic, rfl⟩ := hfault
      exact .inr ⟨opcode, pc, mnemonic, d', hperform⟩

end Every

/-- A session that passes over one operation at the last address. -/
theorem session_of_one_skip :
    let d : Debugger := { cpu := (Cpu.ofMemory .zero .preserve).restore {}, before := {} }
    let d' := (Call.skip (.int 0xFFFF) { opcodeHex := .str "76" }).perform.final d
    Reaches 1 d' ∧ d'.cpu.machine.Ready ∧ d'.cpu.count = 1 ∧ d'.cpu.state.pc = .int 0 := by
  intro d d'
  have hattach :
      attach ((Cpu.ofMemory .zero .preserve).restore {}) .halt (.int 1024) .null = .ok d := rfl
  have hreached : Reaches 1 d' :=
    .call (.skip (.int 0xFFFF) { opcodeHex := .str "76" }) (.fresh CpuState.whole_fresh hattach)
      ⟨rfl, rfl⟩
  obtain ⟨hready, -, -, hcount, -⟩ := session_stays_in_domain hreached
  exact ⟨hreached, hready, hcount, rfl⟩

end Debugger

end Emu8080
