/-
# Emu8080.Proofs.Composed -- what instructions are made of

Different as they are, instructions are put together from a few parts: values,
refusals that are no trap, looks at the machine, changes of its state, and reads
and writes over the bus.  A look does not see the program counter and the
interrupt enable bit, and a change neither sees nor touches them
(`CpuState.Inner`).  `Instr.execute_composed` says so of every instruction, and
is the only place that goes through them all: what holds of the parts and of
sequences holds of each instruction by induction on `Machine.Composed`.

The first thing that holds is blindness (`Machine.Composed.blind`).  Started at
another place, an instruction comes to the same, and leaves everything as it
would have but for the place.  What an action does not see it cannot change
either, so that the place survives it (`Machine.place_of_blind`).
-/
import Emu8080.Instr.Execute
import Emu8080.Proofs.Sequence

namespace Emu8080

set_option autoImplicit false

open Emu8080.Action (bind_of_ok bind_of_error)

/-! ## Actions that do not see a part of the state -/

namespace Action

variable {σ τ α β : Type} {f : σ → σ}

/-- The same outcome, with something made of the state that is left. -/
def mapState (f : σ → τ) : EStateM.Result Fault σ α → EStateM.Result Fault τ α
  | .ok a s => .ok a (f s)
  | .error fault s => .error fault (f s)

/-- The action does not see what `f` changes, and leaves it changed. -/
def Blind (f : σ → σ) (x : Action σ α) : Prop := ∀ s, x (f s) = mapState f (x s)

theorem Blind.pure (a : α) : Blind f (pure a : Action σ α) := fun _ => rfl

theorem Blind.demand (x : Except Fault α) : Blind f (demand x : Action σ α) := by
  intro s
  cases x <;> rfl

theorem Blind.look {k : σ → Action σ β} (hk : ∀ s, Blind f (k s)) (hsame : ∀ s, k (f s) = k s) :
    Blind f (get >>= k) := by
  intro s
  show k (f s) (f s) = mapState f (k s s)
  rw [hsame, hk s s]

theorem Blind.modify {g : σ → σ} (h : ∀ s, g (f s) = f (g s)) :
    Blind f (modify g : Action σ PUnit) := by
  intro s
  exact congrArg (EStateM.Result.ok PUnit.unit) (h s)

theorem Blind.bind {x : Action σ α} {k : α → Action σ β} (hx : Blind f x)
    (hk : ∀ a, Blind f (k a)) : Blind f (x >>= k) := by
  intro s
  have hfirst := hx s
  cases hrun : x s with
  | ok a t =>
    rw [hrun] at hfirst
    rw [bind_of_ok hfirst, bind_of_ok hrun, hk a t]
  | error fault t =>
    rw [hrun] at hfirst
    rw [bind_of_error hfirst, bind_of_error hrun]
    rfl

/-- An action on a part that `f` leaves alone does not see what `f` changes. -/
theorem Blind.within {focus : σ → τ × (τ → σ)} (hpart : ∀ s, (focus (f s)).1 = (focus s).1)
    (hrest : ∀ s t, (focus (f s)).2 t = f ((focus s).2 t)) (x : Action τ α) :
    Blind f (within focus x) := by
  intro s
  rw [within_eq, within_eq, hpart]
  cases x (focus s).1 with
  | ok a t => exact congrArg (EStateM.Result.ok a) (hrest s t)
  | error fault t => exact congrArg (EStateM.Result.error fault) (hrest s t)

end Action

open Emu8080.Action (Blind mapState)

/-! ## The place of an instruction -/

namespace CpuState

/-- The same state at another place, with another interrupt enable bit. -/
def elsewhere (s : CpuState) (pc intEnable : Datum) : CpuState := { s with pc, intEnable }

@[simp] theorem elsewhere_self (s : CpuState) : s.elsewhere s.pc s.intEnable = s := rfl

@[simp] theorem get_elsewhere (s : CpuState) (pc intEnable : Datum) (r : Reg) :
    (s.elsewhere pc intEnable).get r = s.get r := by
  cases r <;> rfl

theorem set_elsewhere (s : CpuState) (pc intEnable : Datum) (r : Reg) (v : Datum) :
    (s.elsewhere pc intEnable).set r v = (s.set r v).elsewhere pc intEnable := by
  cases r <;> rfl

/-- A change of the state that stays on the bus, and has nothing to do with the place of an
instruction. -/
structure Inner (f : CpuState → CpuState) : Prop where
  bus : ∀ s, (f s).bus = s.bus
  elsewhere : ∀ s pc intEnable, f (s.elsewhere pc intEnable) = (f s).elsewhere pc intEnable

variable {f : CpuState → CpuState}

theorem Inner.eq_elsewhere (hf : Inner f) (s : CpuState) :
    f s = (f s).elsewhere s.pc s.intEnable := by
  have helsewhere := hf.elsewhere s s.pc s.intEnable
  rwa [elsewhere_self] at helsewhere

theorem Inner.pc (hf : Inner f) (s : CpuState) : (f s).pc = s.pc :=
  (congrArg CpuState.pc (hf.eq_elsewhere s)).trans rfl

theorem inner_set (r : Reg) (v : Datum) : Inner fun s => s.set r v where
  bus s := s.bus_set r v
  elsewhere s pc intEnable := s.set_elsewhere pc intEnable r v

theorem inner_setWord (high low : Reg) (value : Int) : Inner fun s => s.setWord high low value where
  bus s := by simp only [setWord, bus_set]
  elsewhere s pc intEnable := by simp only [setWord, set_elsewhere]

theorem inner_setSp (value : Datum) : Inner fun s => { s with sp := value } :=
  ⟨fun _ => rfl, fun _ _ _ => rfl⟩

theorem inner_setCodes (cc : ConditionCodes) : Inner fun s => { s with cc } :=
  ⟨fun _ => rfl, fun _ _ _ => rfl⟩

end CpuState

namespace Machine

/-- The same machine at another place, with another interrupt enable bit. -/
def elsewhere (m : Machine) (pc intEnable : Datum) : Machine :=
  { m with state := m.state.elsewhere pc intEnable }

/-- The actions that instructions are. -/
inductive Composed : {α : Type} → Exec α → Prop
  | pure {α : Type} (a : α) : Composed (pure a : Exec α)
  | demand {α : Type} {x : Except Fault α}
      (hx : ∀ opcode pc mnemonic, x ≠ .error (.unimplemented opcode pc mnemonic)) :
      Composed (Action.demand x : Exec α)
  | look {α : Type} {k : Machine → Exec α} (hk : ∀ m, Composed (k m))
      (hsame : ∀ m pc intEnable, k (m.elsewhere pc intEnable) = k m) : Composed (get >>= k)
  | change {f : CpuState → CpuState} (hf : CpuState.Inner f) : Composed (modifyState f)
  | read (d : Datum) : Composed (read d)
  | write (d data : Datum) : Composed (write d data)
  | bind {α β : Type} {x : Exec α} {k : α → Exec β} (hx : Composed x) (hk : ∀ a, Composed (k a)) :
      Composed (x >>= k)

namespace Composed

theorem throw {α : Type} {fault : Fault}
    (h : ∀ opcode pc mnemonic, fault ≠ .unimplemented opcode pc mnemonic) :
    Composed (throw fault : Exec α) :=
  .demand (x := .error fault) fun opcode pc mnemonic heq =>
    h opcode pc mnemonic (Except.error.inj heq)

theorem whole (d : Datum) : Composed (Action.whole d) := by
  refine .demand fun opcode pc mnemonic h => ?_
  rw [Datum.whole] at h
  cases hint : d.int? with
  | none =>
    rw [hint] at h
    cases h
  | some n =>
    rw [hint] at h
    cases h

end Composed

theorem reach_composed : Composed reach := by
  refine .look (fun m => ?_) fun _ _ _ => rfl
  split
  · exact .pure _
  · exact .throw nofun

theorem word_composed (high low : Reg) : Composed (word high low) := by
  refine .look (fun m => ?_) ?_
  · refine (Composed.whole _).bind fun upper => ?_
    exact (Composed.whole _).bind fun lower => .pure _
  · intro m pc intEnable
    simp only [elsewhere, CpuState.get_elsewhere]

theorem getPair_composed (p : Pair) : Composed (getPair p) := by
  cases p with
  | sp => exact .look (fun m => .pure _) fun _ _ _ => rfl
  | bc | de | hl => exact (word_composed _ _).bind fun n => .pure _

theorem setPair_composed (p : Pair) (value : Int) : Composed (setPair p value) := by
  cases p with
  | sp => exact .change (CpuState.inner_setSp _)
  | bc | de | hl => exact .change (CpuState.inner_setWord _ _ value)

theorem load_composed (o : Operand8) : Composed (load o) := by
  cases o with
  | reg r =>
    refine .look (fun m => .pure _) ?_
    intro m pc intEnable
    simp only [elsewhere, CpuState.get_elsewhere]
  | mem =>
    refine reach_composed.bind fun _ => ?_
    refine (word_composed _ _).bind fun address => ?_
    exact (Composed.read _).bind fun v => .pure _

theorem save_composed (o : Operand8) (value : Datum) : Composed (save o value) := by
  cases o with
  | reg r => exact (Composed.whole value).bind fun n => .change (CpuState.inner_set r _)
  | mem =>
    refine reach_composed.bind fun _ => ?_
    refine (word_composed _ _).bind fun address => ?_
    exact (Composed.whole value).bind fun n => .write _ _

theorem setCodes_composed (cc : ConditionCodes) : Composed (setCodes cc) :=
  .change (CpuState.inner_setCodes cc)

end Machine

/-! ## Instructions -/

theorem Operation.byteAt_ne_trap (bytes : Datum) (index : Nat) :
    ∀ opcode pc mnemonic, byteAt bytes index ≠ .error (.unimplemented opcode pc mnemonic) := by
  have hpresent (d? : Option Datum) : ∀ opcode pc mnemonic,
      Datum.item.present d? ≠ .error (.unimplemented opcode pc mnemonic) := by
    cases d? <;> nofun
  cases bytes with
  | list items => exact hpresent _
  | str s => exact hpresent _
  | map entries =>
    rw [byteAt, Datum.item]
    split <;> nofun
  | null | bool b | int n | float x => nofun

namespace Instr

open Machine

theorem operandWord_composed (bytes : Datum) : Composed (operandWord bytes) := by
  refine (Composed.demand (Operation.byteAt_ne_trap bytes 1)).bind fun d => ?_
  refine (Composed.whole d).bind fun high => ?_
  refine (Composed.demand (Operation.byteAt_ne_trap bytes 0)).bind fun d => ?_
  exact (Composed.whole d).bind fun low => .pure _

theorem carryFlag_composed : Composed carryFlag :=
  .look (fun _ => .whole _) fun _ _ _ => rfl

theorem setFlags_composed (affected : Option FlagMask) (policy : FlagPolicy) (sum : Alu.Sum) :
    Composed (setFlags affected policy sum) := by
  cases affected with
  | none => exact .throw nofun
  | some mask => exact .look (fun m => setCodes_composed _) fun _ _ _ => rfl

theorem setCarry_composed (carry : Int) : Composed (setCarry carry) :=
  .look (fun _ => setCodes_composed _) fun _ _ _ => rfl

theorem adjust_composed (target : Operand8) (addend : Int) (affected : Option FlagMask)
    (policy : FlagPolicy) : Composed (adjust target addend affected policy) := by
  refine (load_composed target).bind fun d => ?_
  refine (Composed.whole d).bind fun value => ?_
  exact (save_composed target _).bind fun _ => setFlags_composed affected policy _

theorem accumulate_composed (source : Operand8) {carryIn : Exec Int} (hcarry : Composed carryIn)
    (affected : Option FlagMask) (policy : FlagPolicy) :
    Composed (accumulate source carryIn affected policy) := by
  refine (load_composed source).bind fun d => ?_
  refine .look (fun m => ?_) fun _ _ _ => rfl
  refine (Composed.whole _).bind fun a => ?_
  refine (Composed.whole d).bind fun value => ?_
  refine hcarry.bind fun carry => ?_
  dsimp only
  refine (Composed.change (CpuState.inner_set .a _)).bind fun _ => ?_
  exact setFlags_composed affected policy _

theorem rotateA_composed (how : Rotation) : Composed (rotateA how) := by
  refine .look (fun m => ?_) fun _ _ _ => rfl
  refine (Composed.whole _).bind fun a => ?_
  dsimp only
  cases how with
  | left | right =>
    refine (Composed.pure _).bind fun result => ?_
    exact (Composed.change (CpuState.inner_set .a _)).bind fun _ => setCarry_composed result.2
  | leftThroughCarry | rightThroughCarry =>
    refine carryFlag_composed.bind fun carry => ?_
    refine (Composed.pure _).bind fun result => ?_
    exact (Composed.change (CpuState.inner_set .a _)).bind fun _ => setCarry_composed result.2

/-- Every instruction is put together from the parts, whatever the operation holds. -/
theorem execute_composed (i : Instr) (bytes : Datum) (affected : Option FlagMask)
    (policy : FlagPolicy) : Composed (i.execute bytes affected policy) := by
  cases i with
  | nop documented => exact .pure _
  | mov target source => exact (load_composed source).bind fun d => save_composed target d
  | mvi target =>
    exact (Composed.demand (Operation.byteAt_ne_trap bytes 0)).bind fun d => save_composed target d
  | lxi target => exact (operandWord_composed bytes).bind fun n => setPair_composed target n
  | stax address =>
    refine (getPair_composed address).bind fun d => ?_
    refine reach_composed.bind fun _ => ?_
    exact .look (fun m => .write d _) fun _ _ _ => rfl
  | ldax address =>
    refine (getPair_composed address).bind fun d => ?_
    refine reach_composed.bind fun _ => ?_
    exact (Composed.read d).bind fun v => .change (CpuState.inner_set .a _)
  | sta =>
    refine reach_composed.bind fun _ => ?_
    refine (operandWord_composed bytes).bind fun address => ?_
    exact .look (fun m => .write _ _) fun _ _ _ => rfl
  | lda =>
    refine reach_composed.bind fun _ => ?_
    refine (operandWord_composed bytes).bind fun address => ?_
    exact (Composed.read _).bind fun v => .change (CpuState.inner_set .a _)
  | shld =>
    refine (operandWord_composed bytes).bind fun address => ?_
    refine (word_composed .h .l).bind fun value => ?_
    refine reach_composed.bind fun _ => ?_
    exact (Composed.write _ _).bind fun _ => .write _ _
  | lhld =>
    refine (operandWord_composed bytes).bind fun address => ?_
    refine reach_composed.bind fun _ => ?_
    refine (Composed.read _).bind fun low => ?_
    refine (Composed.change (CpuState.inner_set .l _)).bind fun _ => ?_
    exact (Composed.read _).bind fun high => .change (CpuState.inner_set .h _)
  | inx target | dcx target =>
    refine (getPair_composed target).bind fun d => ?_
    exact (Composed.whole d).bind fun value => setPair_composed target _
  | dad source =>
    refine (getPair_composed source).bind fun d => ?_
    refine (word_composed .h .l).bind fun base => ?_
    refine (Composed.whole d).bind fun addend => ?_
    refine (Composed.change (CpuState.inner_setWord _ _ _)).bind fun _ => ?_
    exact setFlags_composed affected policy _
  | inr target => exact adjust_composed target 1 affected policy
  | dcr target => exact adjust_composed target 0xFF affected policy
  | add source => exact accumulate_composed source (.pure 0) affected policy
  | adc source => exact accumulate_composed source carryFlag_composed affected policy
  | rotate how => exact rotateA_composed how
  | cma =>
    refine .look (fun m => ?_) fun _ _ _ => rfl
    exact (Composed.whole _).bind fun a => .change (CpuState.inner_set .a _)
  | stc => exact setCarry_composed 1
  | cmc => exact carryFlag_composed.bind fun carry => setCarry_composed _

end Instr

/-! ## What instructions do not see -/

theorem Machine.onMemory_blind {α : Type} (x : Action Memory α) (pc intEnable : Datum) :
    Blind (fun m : Machine => m.elsewhere pc intEnable) (onMemory x) :=
  Blind.within (f := fun m : Machine => m.elsewhere pc intEnable) (fun _ => rfl) (fun _ _ => rfl) x

/-- What is put together from the parts does not see the place. -/
theorem Machine.Composed.blind {α : Type} {x : Exec α} (h : Composed x) (pc intEnable : Datum) :
    Blind (fun m : Machine => m.elsewhere pc intEnable) x := by
  induction h with
  | pure a => exact Blind.pure a
  | demand hx => exact Blind.demand _
  | look hk hsame ih => exact Blind.look ih fun m => hsame m pc intEnable
  | @change f hf =>
    refine Blind.modify fun m => ?_
    show Machine.mk (f (m.state.elsewhere pc intEnable)) m.memory = _
    rw [hf.elsewhere]
    rfl
  | read d => exact onMemory_blind _ pc intEnable
  | write d data => exact onMemory_blind _ pc intEnable
  | bind hx hk ihx ihk => exact ihx.bind ihk

/-- What an action does not see it leaves as it was. -/
theorem Machine.place_of_blind {α : Type} {x : Exec α} {m : Machine}
    (h : Blind (fun t : Machine => t.elsewhere m.state.pc m.state.intEnable) x) :
    (x.final m).state.pc = m.state.pc ∧ (x.final m).state.intEnable = m.state.intEnable := by
  have hsame : x m = mapState (fun t : Machine => t.elsewhere m.state.pc m.state.intEnable) (x m) :=
    h m
  cases hrun : x m with
  | ok a t =>
    rw [hrun] at hsame
    rw [Action.final_of_ok (hrun.trans hsame)]
    exact ⟨rfl, rfl⟩
  | error fault t =>
    rw [hrun] at hsame
    rw [Action.final_of_error (hrun.trans hsame)]
    exact ⟨rfl, rfl⟩

namespace Operation

variable {op : Operation} {n : Int} {i : Instr}

/-- An operation whose opcode has an implementation is that instruction. -/
theorem execute_of_opcode (h : op.opcode = .ok n) (hn : 0 ≤ n ∧ n < 256)
    (hi : Instr.ofOpcode? (UInt8.ofInt n) = some i) (policy : FlagPolicy) :
    op.execute policy = i.execute op.operandBytes op.affected policy := by
  funext m
  rw [execute, Action.demand_bind h, if_pos hn, hi]

/-- An operation is an instruction, or it is refused with nothing done. -/
theorem execute_cases (op : Operation) (policy : FlagPolicy) (m : Machine) :
    (∃ i, op.execute policy = Instr.execute i op.operandBytes op.affected policy)
      ∨ ∃ fault, op.execute policy m = .error fault m := by
  cases hopcode : op.opcode with
  | error fault =>
    refine .inr ⟨fault, ?_⟩
    rw [execute, hopcode]
    rfl
  | ok n =>
    by_cases hn : 0 ≤ n ∧ n < 256
    · cases hi : Instr.ofOpcode? (UInt8.ofInt n) with
      | some i => exact .inl ⟨i, execute_of_opcode hopcode hn hi policy⟩
      | none =>
        refine .inr ⟨.trap (UInt8.ofInt n) m.state.pc op.mnemonic, ?_⟩
        rw [execute, Action.demand_bind hopcode, if_pos hn, hi]
        rfl
    · refine .inr ⟨.noEntry, ?_⟩
      rw [execute, Action.demand_bind hopcode, if_neg hn]
      rfl

/-- **Execution does not see its place.**  Whatever an operation holds and whatever comes of it, the
program counter and the interrupt enable bit stay what they were.  Where its opcode has an
implementation, any operation with that opcode, those operand bytes and that mask comes to the same
at any other place: to the same success or fault, the same rest of the state, and the same memory
with the same log. -/
theorem execute_blind (op : Operation) (policy : FlagPolicy) (m : Machine) :
    (((op.execute policy).final m).state.pc = m.state.pc
        ∧ ((op.execute policy).final m).state.intEnable = m.state.intEnable)
      ∧ ∀ (op' : Operation) (n : Int) (i : Instr), op.opcode = .ok n → op'.opcode = .ok n →
          0 ≤ n ∧ n < 256 → Instr.ofOpcode? (UInt8.ofInt n) = some i →
          op'.operandBytes = op.operandBytes → op'.affected = op.affected →
          ∀ pc intEnable, op'.execute policy (m.elsewhere pc intEnable)
            = mapState (fun t : Machine => t.elsewhere pc intEnable) (op.execute policy m) := by
  constructor
  · rcases execute_cases op policy m with ⟨i, hexecute⟩ | ⟨fault, hrefused⟩
    · rw [hexecute]
      exact Machine.place_of_blind ((i.execute_composed _ _ policy).blind _ _)
    · rw [Action.final_of_error hrefused]
      exact ⟨rfl, rfl⟩
  · intro op' n i h h' hn hi hbytes haffected pc intEnable
    rw [execute_of_opcode h hn hi, execute_of_opcode h' hn hi, hbytes, haffected]
    exact (i.execute_composed _ _ policy).blind pc intEnable m

/-- An addition that lacks its mask faults with the sum already stored, at any place, and under any
spelling and measure. -/
theorem execute_blind_without_mask :
    let m : Machine := { state := { a := .int 200, b := .int 100 } }
    let op : Operation := { opcodeHex := .str "80" }
    let op' : Operation := { opcodeHex := .str "0x80", mnemonic := .null, length := .str "long" }
    op.execute .clear m = .error .noAttribute { state := { a := .int 44, b := .int 100 } }
      ∧ op'.execute .clear (m.elsewhere (.int 0x100) (.bool true))
        = .error .noAttribute
            { state :=
                { a := .int 44, b := .int 100, pc := .int 0x100, intEnable := .bool true } } := by
  intro m op op'
  obtain ⟨-, hsame⟩ := execute_blind op .clear m
  have hrun : op.execute .clear m
      = .error .noAttribute { state := { a := .int 44, b := .int 100 } } := by
    rw [execute_of_opcode (n := 0x80) (i := .add (.reg .b)) rfl (by decide) rfl]
    rfl
  refine ⟨hrun, ?_⟩
  rw [hsame op' 0x80 (.add (.reg .b)) rfl rfl (by decide) rfl rfl rfl, hrun]
  rfl

end Operation

end Emu8080
