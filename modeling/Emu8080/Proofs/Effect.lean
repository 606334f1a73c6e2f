/-
# Emu8080.Proofs.Effect -- an instruction has the effect of its description

`Instr.execute` is followed on the chip that a machine shows, one instruction
after another: it succeeds, the machine shows `Chip.effect` afterwards, and the
log has grown by `Chip.dataCycles`.  The parts that several instructions share
(setting flags, going on from an addition, taking the operand word) have a
statement of their own.
-/
import Emu8080.Proofs.Arithmetic
import Emu8080.Proofs.Primitive

namespace Emu8080.Instr

set_option autoImplicit false

open Machine
open Emu8080.Action (get_bind demand_bind whole_bind bind_of_ok pure_bind_apply)

variable {m : Machine} {c : Chip} {seen : List BusCycle} {low high : UInt8}

/-! ## Flags -/

/-- Flags that are computed where the mask holds and settled by the policy elsewhere. -/
theorem setFlags_records (h : m.Records c seen) (mask : FlagMask) (policy : FlagPolicy)
    (sum : Alu.Sum) {given : Flag → Option Bool}
    (hgiven : ∀ f, given f = if mask.get f
      then some (Alu.flagOf sum.value sum.carry.toInt sum.auxCarry.toInt f) else none) :
    ∃ m', setFlags (some mask) policy sum m = .ok ⟨⟩ m'
      ∧ m'.Records (c.settle policy given) seen := by
  refine ⟨_, rfl, h.setCodes ?_⟩
  intro f
  rw [hgiven f]
  cases hmask : mask.get f with
  | true =>
    rw [Alu.applyFlags_affected hmask, if_pos rfl]
    exact ConditionCodes.int?_bit _
  | false =>
    rw [Alu.applyFlags_unaffected hmask, if_neg Bool.false_ne_true]
    cases policy with
    | preserve => exact h.flag f
    | clear => rfl

theorem setCarry_records (h : m.Records c seen) (b : Bool) :
    ∃ m', setCarry (b.toNat : Int) m = .ok ⟨⟩ m' ∧ m'.Records (c.setFlag .cy b) seen :=
  ⟨_, rfl, h.setFlag .cy rfl⟩

theorem carryFlag_of_shows (h : m.Shows c) : carryFlag m = .ok ((c.flag .cy).toNat : Int) m :=
  Action.whole_of_int? (h.flag .cy) m

/-! ## Operands -/

/-- The operand bytes that an instruction finds, as far as it has any. -/
structure Operands (bytes : Datum) (count : Nat) (low high : UInt8) : Prop where
  first : 1 ≤ count → Operation.byteAt bytes 0 = .ok (.int low.toNat)
  second : 2 ≤ count → Operation.byteAt bytes 1 = .ok (.int high.toNat)

theorem wordOf_bytes (low high : UInt8) :
    wordOf (low.toNat : Int) (high.toNat : Int) = ((ofBytes high low).toNat : Int) := by
  have hlow := low.toNat_lt
  have hhigh := high.toNat_lt
  have hupper : (((high.toNat : Int) * 256) % 65536).toNat = 2 ^ 8 * high.toNat := by omega
  have hlower : ((low.toNat : Int) % 65536).toNat = low.toNat := by omega
  rw [wordOf, hupper, hlower, ← Nat.two_pow_add_eq_or_of_lt hlow, toNat_ofBytes]

theorem operandWord_eq {σ : Type} {bytes : Datum} (h : Operands bytes 2 low high) (s : σ) :
    operandWord bytes s = .ok ((ofBytes high low).toNat : Int) s := by
  rw [operandWord, demand_bind (h.second (Nat.le_refl 2)), whole_bind rfl,
    demand_bind (h.first (by decide)), whole_bind rfl, wordOf_bytes]
  rfl

theorem nextAddress_eq (a : UInt16) : nextAddress (a.toNat : Int) = ((a + 1).toNat : Int) :=
  advance_toNat a 1

/-! ## Arithmetic -/

/-- The flags of a byte on the mask of increments, which leave the carry alone. -/
theorem byteFlags_masked (v : UInt8) (auxCarry : Bool) (f : Flag) :
    Chip.byteFlags v none auxCarry f = if (FlagMask.ofList [.z, .s, .p, .ac]).get f
      then some (Alu.flagOf (v.toNat : Int) false.toInt auxCarry.toInt f) else none := by
  have hflag := Alu.flagOf_byte v false auxCarry f
  cases f with
  | cy => rfl
  | z | s | p | ac => exact hflag

/-- The flags of a byte on the mask of additions, which set them all. -/
theorem byteFlags_all (v : UInt8) (carry auxCarry : Bool) (f : Flag) :
    Chip.byteFlags v (some carry) auxCarry f = if (FlagMask.ofList Flag.all).get f
      then some (Alu.flagOf (v.toNat : Int) carry.toInt auxCarry.toInt f) else none := by
  rw [Alu.flagOf_byte]
  cases f <;> rfl

/-- The carry alone, on the mask of pair additions. -/
theorem carryOnly_masked (value auxCarry : Int) (carry : Bool) (f : Flag) :
    Chip.carryOnly carry f = if (FlagMask.ofList [.cy]).get f
      then some (Alu.flagOf value carry.toInt auxCarry f) else none := by
  cases f with
  | cy => exact congrArg some (Alu.toInt_emod carry).symm
  | z | s | p | ac => rfl

/-- A byte operand is read, added to, stored, and sets every flag but the carry. -/
theorem adjust_records (h : m.Records c seen) (target : Operand8) (addend : UInt8)
    (policy : FlagPolicy) :
    let v := c.operand target
    ∃ m', adjust target (addend.toNat : Int) (some (FlagMask.ofList [.z, .s, .p, .ac])) policy m
        = .ok ⟨⟩ m'
      ∧ m'.Records ((c.put target (v + addend)).settle policy
          (Chip.byteFlags (v + addend) none (decide (16 ≤ v.toNat % 16 + addend.toNat % 16))))
          (seen ++ (c.loadCycles target ++ c.putCycles target (v + addend))) := by
  intro v
  have hresult : UInt8.ofNat (v.toNat + addend.toNat) = v + addend := by
    rw [UInt8.ofNat_add, UInt8.ofNat_toNat, UInt8.ofNat_toNat]
  have hsum : Alu.add .byte (v.toNat : Int) (addend.toNat : Int) 0 = _ :=
    Alu.add_bytes v addend false
  rw [Bool.toNat_false, Nat.add_zero, Nat.add_zero, hresult] at hsum
  obtain ⟨d, m₁, hload, hd, h₁⟩ := load_records h target
  obtain ⟨m₂, hsave, h₂⟩ := save_records (d := .int (v + addend).toNat) h₁ target rfl
  obtain ⟨m₃, hflags, h₃⟩ := setFlags_records h₂ _ policy
    { value := (v + addend).toNat, carry := false, auxCarry := _ } (byteFlags_masked _ _)
  refine ⟨m₃, ?_, List.append_assoc .. ▸ h₃⟩
  rw [adjust, bind_of_ok hload, whole_bind hd]
  show (save target (.int (Alu.add .byte v.toNat addend.toNat 0).value) >>= _) m₁ = _
  rw [hsum, bind_of_ok hsave]
  exact hflags

/-- The sum with the accumulator is stored there and sets every flag. -/
theorem accumulate_records (h : m.Records c seen) (source : Operand8) {carryIn : Exec Int}
    {carry : Bool} (hcarry : ∀ m : Machine, m.Shows c → carryIn m = .ok (carry.toNat : Int) m)
    (policy : FlagPolicy) :
    ∃ m', accumulate source carryIn (some (FlagMask.ofList Flag.all)) policy m = .ok ⟨⟩ m'
      ∧ m'.Records (c.accumulate policy (c.operand source) carry)
          (seen ++ c.loadCycles source) := by
  obtain ⟨d, m₁, hload, hd, h₁⟩ := load_records h source
  have hsum := Alu.add_bytes (c.reg .a) (c.operand source) carry
  have ha : m₁.state.a.int? = some ((c.reg .a).toNat : Int) := h₁.reg .a
  obtain ⟨m₂, hflags, h₂⟩ := setFlags_records (h₁.setReg .a (d := .int _) rfl) _ policy
    { value := _, carry := _, auxCarry := _ } (byteFlags_all _ _ _)
  refine ⟨m₂, ?_, h₂⟩
  rw [accumulate, bind_of_ok hload, get_bind, whole_bind ha, whole_bind hd,
    bind_of_ok (hcarry m₁ h₁.toShows)]
  rw [hsum]
  exact hflags

/-! ## Rotations -/

/-- A rotation ends with a byte in the accumulator and a bit in the carry. -/
theorem rotated_records (h : m.Records c seen) (result : UInt8) (carry : Bool) :
    ∃ m', (modifyState (fun s => { s with a := .int result.toNat })
        >>= fun _ => setCarry (carry.toNat : Int)) m = .ok ⟨⟩ m'
      ∧ m'.Records ((c.setReg .a result).setFlag .cy carry) seen :=
  ⟨_, rfl, (h.setReg .a (d := .int result.toNat) rfl).setFlag .cy (d := .int carry.toNat) rfl⟩

theorem rotateA_records (h : m.Records c seen) (how : Rotation) :
    ∃ m', rotateA how m = .ok ⟨⟩ m' ∧ m'.Records (c.rotate how) seen := by
  have ha : m.state.a.int? = some ((c.reg .a).toNat : Int) := h.reg .a
  have hcarry := carryFlag_of_shows h.toShows
  cases how with
  | left =>
    rw [rotateA, get_bind, whole_bind ha]
    dsimp only
    rw [pure_bind_apply, Alu.rlc_byte]
    exact rotated_records h _ _
  | right =>
    rw [rotateA, get_bind, whole_bind ha]
    dsimp only
    rw [pure_bind_apply, Alu.rrc_byte]
    exact rotated_records h _ _
  | leftThroughCarry =>
    rw [rotateA, get_bind, whole_bind ha]
    dsimp only
    rw [bind_of_ok hcarry, pure_bind_apply, Alu.ral_byte]
    exact rotated_records h _ _
  | rightThroughCarry =>
    rw [rotateA, get_bind, whole_bind ha]
    dsimp only
    rw [bind_of_ok hcarry, pure_bind_apply, Alu.rar_byte_carry]
    exact rotated_records h _ _

/-! ## Pairs -/

theorem add_one_ne (a : UInt16) : a + 1 ≠ a := by
  intro h
  have hnat := congrArg UInt16.toNat h
  have ha := a.toNat_lt
  rw [UInt16.toNat_add, UInt16.toNat_one] at hnat
  omega

theorem dad_records (h : m.Records c seen) (source : Pair) (bytes : Datum) (policy : FlagPolicy) :
    ∃ m', (dad source).execute bytes (some (dad source).affected) policy m = .ok ⟨⟩ m'
      ∧ m'.Records (c.effect policy (.dad source) low high) seen := by
  obtain ⟨d, hget, hd⟩ := getPair_of_shows h.toShows source
  obtain ⟨hvalue, hcarry⟩ := Alu.add_words (c.pair .hl) (c.pair source)
  obtain ⟨m', hflags, h'⟩ := setFlags_records
    (h.setWord .h .l (UInt16.ofNat ((c.pair .hl).toNat + (c.pair source).toNat)))
    (FlagMask.ofList [.cy]) policy
    { Alu.add .word ((c.pair .hl).toNat : Int) ((c.pair source).toNat : Int) 0 with
      auxCarry := false }
    (carryOnly_masked _ _ _)
  rw [hcarry] at h'
  refine ⟨m', ?_, h'⟩
  rw [execute, bind_of_ok hget, bind_of_ok (hl_of_shows h.toShows), whole_bind hd]
  rw [← hvalue] at hflags
  exact hflags

/-- Storing a word in two steps, the low byte first. -/
theorem shld_records (h : m.Records c seen) {bytes : Datum} (hb : Operands bytes 2 low high)
    (policy : FlagPolicy) :
    ∃ m', shld.execute bytes (some shld.affected) policy m = .ok ⟨⟩ m'
      ∧ m'.Records (c.effect policy .shld low high) (seen ++ c.dataCycles .shld low high) := by
  have hl : (Datum.int (c.reg .l).toNat).int? = some ((c.reg .l).toNat : Int) := rfl
  have hh : (Datum.int (c.reg .h).toNat).int? = some ((c.reg .h).toNat : Int) := rfl
  obtain ⟨m₁, hlow, h₁⟩ := write_records h (d := .int (ofBytes high low).toNat) rfl hl
  obtain ⟨m₂, hhigh, h₂⟩ := write_records h₁ (d := .int (ofBytes high low + 1).toNat) rfl hh
  refine ⟨m₂, ?_, ?_⟩
  · rw [execute, bind_of_ok (operandWord_eq hb m), bind_of_ok (hl_of_shows h.toShows),
      unpack_toNat, Chip.pair, highByte_ofBytes, lowByte_ofBytes]
    dsimp only
    rw [bind_of_ok (reach_of_bus h.bus), bind_of_ok hlow, nextAddress_eq]
    exact hhigh
  · have hprevious :
        (c.store (ofBytes high low) (c.reg .l)).writeCycle (ofBytes high low + 1) (c.reg .h)
          = c.writeCycle (ofBytes high low + 1) (c.reg .h) := by
      rw [Chip.writeCycle, Chip.byte_store_of_ne c (add_one_ne _), Chip.writeCycle]
    rw [hprevious, List.append_assoc] at h₂
    exact h₂

/-- Loading a word in two steps, the low byte first. -/
theorem lhld_records (h : m.Records c seen) {bytes : Datum} (hb : Operands bytes 2 low high)
    (policy : FlagPolicy) :
    ∃ m', lhld.execute bytes (some lhld.affected) policy m = .ok ⟨⟩ m'
      ∧ m'.Records (c.effect policy .lhld low high) (seen ++ c.dataCycles .lhld low high) := by
  obtain ⟨m₁, hlow, h₁⟩ := read_records h (d := .int (ofBytes high low).toNat) rfl
  have h₁' := h₁.setReg .l (d := .int (c.byte (ofBytes high low)).toNat) rfl
  obtain ⟨m₂, hhigh, h₂⟩ := read_records h₁' (d := .int (ofBytes high low + 1).toNat) rfl
  have h₂' := h₂.setReg .h (d := .int (c.byte (ofBytes high low + 1)).toNat) rfl
  refine ⟨_, ?_, List.append_assoc seen _ _ ▸ h₂'⟩
  rw [execute, bind_of_ok (operandWord_eq hb m), bind_of_ok (reach_of_bus h.bus), bind_of_ok hlow,
    nextAddress_eq, modifyState_bind]
  exact bind_of_ok hhigh _

/-! ## Every instruction -/

/-- Carrying out an instruction succeeds with the effect and the accesses of its description. -/
theorem execute_records (i : Instr) (h : m.Records c seen) {bytes : Datum}
    (hb : Operands bytes i.operandCount low high) (policy : FlagPolicy) :
    ∃ m', i.execute bytes (some i.affected) policy m = .ok ⟨⟩ m'
      ∧ m'.Records (c.effect policy i low high) (seen ++ c.dataCycles i low high) := by
  have hnone : seen ++ [] = seen := List.append_nil seen
  cases i with
  | nop documented => exact ⟨m, rfl, hnone.symm ▸ h⟩
  | mov target source =>
    obtain ⟨d, m₁, hload, hd, h₁⟩ := load_records h source
    obtain ⟨m₂, hsave, h₂⟩ := save_records h₁ target hd
    exact ⟨m₂, (bind_of_ok hload _).trans hsave, List.append_assoc .. ▸ h₂⟩
  | mvi target =>
    obtain ⟨m', hsave, h'⟩ := save_records h target (d := .int low.toNat) rfl
    exact ⟨m', (demand_bind (hb.first (Nat.le_refl 1)) _ m).trans hsave, h'⟩
  | lxi target =>
    obtain ⟨m', hset, h'⟩ := setPair_records h target (ofBytes high low)
    exact ⟨m', (bind_of_ok (operandWord_eq hb m) _).trans hset, hnone.symm ▸ h'⟩
  | stax address =>
    obtain ⟨d, hget, hd⟩ := getPair_of_shows h.toShows address
    obtain ⟨m', hwrite, h'⟩ := write_records h hd (h.reg .a)
    refine ⟨m', ?_, h'⟩
    rw [execute, bind_of_ok hget, bind_of_ok (reach_of_bus h.bus)]
    exact hwrite
  | ldax address =>
    obtain ⟨d, hget, hd⟩ := getPair_of_shows h.toShows address
    obtain ⟨m', hread, h'⟩ := read_records h hd
    refine ⟨_, ?_, h'.setReg .a (d := .int (c.byte (c.pair address)).toNat) rfl⟩
    rw [execute, bind_of_ok hget, bind_of_ok (reach_of_bus h.bus)]
    exact bind_of_ok hread _
  | sta =>
    obtain ⟨m', hwrite, h'⟩ := write_records h (d := .int (ofBytes high low).toNat) rfl (h.reg .a)
    refine ⟨m', ?_, h'⟩
    rw [execute, bind_of_ok (reach_of_bus h.bus), bind_of_ok (operandWord_eq hb m)]
    exact hwrite
  | lda =>
    obtain ⟨m', hread, h'⟩ := read_records h (d := .int (ofBytes high low).toNat) rfl
    refine ⟨_, ?_, h'.setReg .a (d := .int (c.byte (ofBytes high low)).toNat) rfl⟩
    rw [execute, bind_of_ok (reach_of_bus h.bus), bind_of_ok (operandWord_eq hb m)]
    exact bind_of_ok hread _
  | shld => exact shld_records h hb policy
  | lhld => exact lhld_records h hb policy
  | inx target =>
    obtain ⟨d, hget, hd⟩ := getPair_of_shows h.toShows target
    obtain ⟨m', hset, h'⟩ := setPair_records h target (c.pair target + 1)
    refine ⟨m', ?_, hnone.symm ▸ h'⟩
    rw [execute, bind_of_ok hget, whole_bind hd, unpack_toNat]
    dsimp only
    rw [Alu.inx_eq]
    exact hset
  | dcx target =>
    obtain ⟨d, hget, hd⟩ := getPair_of_shows h.toShows target
    obtain ⟨m', hset, h'⟩ := setPair_records h target (c.pair target - 1)
    refine ⟨m', ?_, hnone.symm ▸ h'⟩
    rw [execute, bind_of_ok hget, whole_bind hd, Alu.dcx_eq]
    exact hset
  | dad source =>
    obtain ⟨m', hrun, h'⟩ := dad_records h source bytes policy
    exact ⟨m', hrun, hnone.symm ▸ h'⟩
  | inr target =>
    obtain ⟨m', hrun, h'⟩ := adjust_records h target 1 policy
    rw [Alu.half_increment] at h'
    exact ⟨m', hrun, h'⟩
  | dcr target =>
    obtain ⟨m', hrun, h'⟩ := adjust_records h target 255 policy
    rw [Alu.half_decrement, Alu.add_max] at h'
    exact ⟨m', hrun, h'⟩
  | add source =>
    have hfalse : ∀ m : Machine, m.Shows c → (pure 0 : Exec Int) m = .ok (false.toNat : Int) m :=
      fun _ _ => rfl
    exact accumulate_records h source hfalse policy
  | adc source => exact accumulate_records h source (fun _ => carryFlag_of_shows) policy
  | rotate how =>
    obtain ⟨m', hrun, h'⟩ := rotateA_records h how
    exact ⟨m', hrun, hnone.symm ▸ h'⟩
  | cma =>
    have ha : m.state.a.int? = some ((c.reg .a).toNat : Int) := h.reg .a
    refine ⟨_, ?_, hnone.symm ▸ h.setReg .a (d := .int (255 - c.reg .a).toNat) rfl⟩
    rw [execute, get_bind, whole_bind ha, Alu.complement_eq]
    rfl
  | stc =>
    obtain ⟨m', hset, h'⟩ := setCarry_records h true
    exact ⟨m', hset, hnone.symm ▸ h'⟩
  | cmc =>
    obtain ⟨m', hset, h'⟩ := setCarry_records h (!c.flag .cy)
    refine ⟨m', ?_, hnone.symm ▸ h'⟩
    rw [execute, bind_of_ok (carryFlag_of_shows h.toShows), Alu.flip_eq]
    exact hset

end Emu8080.Instr
