/-
# Emu8080.Proofs.Primitive -- the actions that instructions are made of

Each action of a machine that an instruction is put together from is followed on
the chip the machine shows: fetching a byte over the bus, forming the word in a
pair, taking and storing a byte operand, setting condition codes.  A statement
says that the action succeeds, what it gives, which chip is shown after it, and
which cycles it adds to the log.
-/
import Emu8080.Instr.Execute
import Emu8080.Proofs.Access
import Emu8080.Proofs.View

namespace Emu8080.Machine

set_option autoImplicit false

open Emu8080.Action (get_bind whole_bind bind_of_ok)

variable {m : Machine} {c : Chip} {seen : List BusCycle}

/-! ## Changes of the state -/

theorem modifyState_bind {α : Type} (f : CpuState → CpuState) (k : Unit → Exec α) (m : Machine) :
    (modifyState f >>= k) m = k ⟨⟩ { m with state := f m.state } := rfl

theorem isChecked_set (s : CpuState) (r : Reg) (d : Datum) :
    (s.set r d).isChecked = s.isChecked := by
  simp only [CpuState.isChecked, CpuState.extra?, CpuState.extras_set]

theorem Records.setReg (h : m.Records c seen) (r : Reg) {d : Datum} {v : UInt8}
    (hd : d.int? = some (v.toNat : Int)) :
    Records { m with state := m.state.set r d } (c.setReg r v) seen where
  reg q := by
    by_cases hq : q = r
    · subst hq
      rw [CpuState.get_set_self, hd, Chip.reg_setReg_self]
    · rw [CpuState.get_set_of_ne _ hq, h.reg q, Chip.reg_setReg_of_ne c hq]
  sp := by rw [CpuState.sp_set]; exact h.sp
  pc := by rw [CpuState.pc_set]; exact h.pc
  flag f := by rw [CpuState.cc_set]; exact h.flag f
  intEnable := by rw [CpuState.intEnable_set]; exact h.intEnable
  byte := h.byte
  bus := by rw [CpuState.bus_set]; exact h.bus
  checked := by rw [isChecked_set]; exact h.checked
  log := h.log

theorem Records.setSp (h : m.Records c seen) {d : Datum} {w : UInt16}
    (hd : d.int? = some (w.toNat : Int)) :
    Records { m with state := { m.state with sp := d } } { c with sp := w } seen :=
  { h with sp := hd }

theorem Records.setPc (h : m.Records c seen) {d : Datum} {w : UInt16}
    (hd : d.int? = some (w.toNat : Int)) :
    Records { m with state := { m.state with pc := d } } { c with pc := w } seen :=
  { h with pc := hd }

theorem Records.setCodes (h : m.Records c seen) {cc : ConditionCodes} {g : Flag → Bool}
    (hcc : ∀ f, (cc.get f).int? = some ((g f).toNat : Int)) :
    Records { m with state := { m.state with cc } } { c with flag := g } seen :=
  { h with flag := hcc }

theorem Records.setFlag (h : m.Records c seen) (f : Flag) {d : Datum} {b : Bool}
    (hd : d.int? = some (b.toNat : Int)) :
    Records { m with state := { m.state with cc := m.state.cc.set f d } } (c.setFlag f b) seen := by
  apply h.setCodes
  intro g
  by_cases hg : g = f
  · subst hg
    rw [Flags.get_set_self, hd]
    exact congrArg (fun b : Bool => some (b.toNat : Int)) (c.flag_setFlag_self g b).symm
  · rw [Flags.get_set_of_ne _ hg, h.flag g]
    exact congrArg (fun b : Bool => some (b.toNat : Int)) (c.flag_setFlag_of_ne hg b).symm

/-- Storing a word into two registers stores its bytes. -/
theorem Records.setWord (h : m.Records c seen) (high low : Reg) (w : UInt16) :
    Records { m with state := m.state.setWord high low (w.toNat : Int) }
      ((c.setReg high (highByte w)).setReg low (lowByte w)) seen := by
  simp only [CpuState.setWord, unpack_toNat]
  exact (h.setReg high rfl).setReg low rfl

/-! ## The bus -/

theorem onMemory_of_ok {α : Type} {x : Action Memory α} {a : α} {memory : Memory}
    (h : x m.memory = .ok a memory) : onMemory x m = .ok a { m with memory } := by
  unfold onMemory
  exact Action.within_of_ok h

theorem onMemory_of_error {α : Type} {x : Action Memory α} {fault : Fault} {memory : Memory}
    (h : x m.memory = .error fault memory) : onMemory x m = .error fault { m with memory } := by
  unfold onMemory
  exact Action.within_of_error h

theorem reach_of_bus (h : m.state.bus = .memory) : reach m = .ok ⟨⟩ m := by
  simp only [reach, get_bind, h]
  rfl

theorem read_records (h : m.Records c seen) {d : Datum} {a : UInt16}
    (hd : d.int? = some (a.toNat : Int)) :
    ∃ m', read d m = .ok (c.byte a) m' ∧ m'.Records c (seen ++ [c.readCycle a]) := by
  have hread := Memory.read_of_some hd m.memory
  rw [ofInt_toNat, h.byte a] at hread
  refine ⟨{ m with memory := m.memory.note (.read a (c.byte a)) }, onMemory_of_ok hread, ?_⟩
  refine { h with log := ?_ }
  simp only [Memory.note, List.map_append, h.log, List.map_cons, List.map_nil, Access.cycle,
    Chip.readCycle]

theorem write_records (h : m.Records c seen) {d data : Datum} {a : UInt16} {v : UInt8}
    (hd : d.int? = some (a.toNat : Int)) (hv : data.int? = some (v.toNat : Int)) :
    ∃ m', write d data m = .ok ⟨⟩ m' ∧ m'.Records (c.store a v) (seen ++ [c.writeCycle a v]) := by
  have hwrite := Memory.write_of_some hd (byteOf_of_int? hv) m.memory
  rw [ofInt_toNat, h.byte a] at hwrite
  refine ⟨{ m with memory := (m.memory.store a v).note (.write a data (c.byte a)) },
    onMemory_of_ok hwrite, ?_⟩
  refine { h with byte := ?_, log := ?_ }
  · intro b
    rw [Memory.byteAt_note, Memory.byteAt_store]
    by_cases hb : b = a
    · rw [if_pos hb, hb, Chip.byte_store_self]
    · rw [if_neg hb, Chip.byte_store_of_ne c hb, h.byte b]
  · simp only [Memory.note, Memory.log_store, List.map_append, h.log, List.map_cons, List.map_nil,
      Access.cycle, Chip.writeCycle, Datum.number_of_int? hv, UInt8.ofNat_toNat]

/-! ## Pairs and operands -/

theorem word_of_shows (h : m.Shows c) (high low : Reg) :
    word high low m = .ok ((ofBytes (c.reg high) (c.reg low)).toNat : Int) m := by
  rw [word, get_bind, whole_bind (h.reg high), whole_bind (h.reg low), pack_toNat]
  rfl

theorem hl_of_shows (h : m.Shows c) : hl m = .ok ((c.pair .hl).toNat : Int) m :=
  word_of_shows h .h .l

theorem getPair_of_shows (h : m.Shows c) (p : Pair) :
    ∃ d : Datum, getPair p m = .ok d m ∧ d.int? = some ((c.pair p).toNat : Int) := by
  cases p with
  | sp => exact ⟨m.state.sp, rfl, h.sp⟩
  | bc => exact ⟨_, bind_of_ok (word_of_shows h .b .c) _, rfl⟩
  | de => exact ⟨_, bind_of_ok (word_of_shows h .d .e) _, rfl⟩
  | hl => exact ⟨_, bind_of_ok (word_of_shows h .h .l) _, rfl⟩

theorem setPair_records (h : m.Records c seen) (p : Pair) (w : UInt16) :
    ∃ m', setPair p (w.toNat : Int) m = .ok ⟨⟩ m' ∧ m'.Records (c.setPair p w) seen := by
  cases p with
  | bc => exact ⟨_, rfl, h.setWord .b .c w⟩
  | de => exact ⟨_, rfl, h.setWord .d .e w⟩
  | hl => exact ⟨_, rfl, h.setWord .h .l w⟩
  | sp =>
    refine ⟨_, rfl, h.setSp ?_⟩
    rw [Datum.int?_int, word_emod]

theorem load_records (h : m.Records c seen) (o : Operand8) :
    ∃ d m', load o m = .ok d m' ∧ d.int? = some ((c.operand o).toNat : Int)
      ∧ m'.Records c (seen ++ c.loadCycles o) := by
  cases o with
  | reg r =>
    refine ⟨m.state.get r, m, load_reg r m, h.reg r, ?_⟩
    rw [Chip.loadCycles, List.append_nil]
    exact h
  | mem =>
    obtain ⟨m', hread, h'⟩ := read_records h (d := .int (c.pair .hl).toNat) rfl
    refine ⟨.int (c.operand .mem).toNat, m', ?_, rfl, h'⟩
    rw [load, bind_of_ok (reach_of_bus h.bus), bind_of_ok (hl_of_shows h.toShows), bind_of_ok hread]
    rfl

theorem save_records (h : m.Records c seen) (o : Operand8) {d : Datum} {v : UInt8}
    (hd : d.int? = some (v.toNat : Int)) :
    ∃ m', save o d m = .ok ⟨⟩ m' ∧ m'.Records (c.put o v) (seen ++ c.putCycles o v) := by
  cases o with
  | reg r =>
    refine ⟨{ m with state := m.state.set r (.int (v.toNat % 256)) }, ?_, ?_⟩
    · rw [save, whole_bind hd]
      rfl
    · rw [Chip.putCycles, List.append_nil, byte_emod]
      exact h.setReg r rfl
  | mem =>
    have hv : (Datum.int (v.toNat % 256)).int? = some (v.toNat : Int) := by
      rw [Datum.int?_int, byte_emod]
    obtain ⟨m', hwrite, h'⟩ :=
      write_records h (d := .int (c.pair .hl).toNat) (a := c.pair .hl) rfl hv
    refine ⟨m', ?_, h'⟩
    rw [save, bind_of_ok (reach_of_bus h.bus), bind_of_ok (hl_of_shows h.toShows), whole_bind hd]
    exact hwrite

end Emu8080.Machine
