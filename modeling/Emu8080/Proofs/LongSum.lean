/-
# Emu8080.Proofs.LongSum -- adding numbers of many bytes

A program for the sum of two numbers of the same length takes eight bytes for
each digit: load a byte of the first number, load one of the second, add them
(with the carry from the second digit on), store the result.  `sumCode` puts it
together, digit by digit and lowest first.

One digit is four steps (`steps_digit`): the stored byte and the carry are the
sum of the two bytes and the carry before.  Neither loads nor stores touch the
carry, so it reaches the next digit as it was left, and by induction on the
digits what is stored, with the last carry above it, is the sum of the numbers
(`steps_sum`).  The stores must not fall on digits that are yet to be executed or
on results; nothing else is asked of the addresses, which may wrap around.
-/
import Emu8080.Proofs.Numeral
import Emu8080.Proofs.Steps

namespace Emu8080

set_option autoImplicit false

namespace Machine

theorem spots_add (a : UInt16) (j k : Nat) :
    spots a 0 (j + k) = spots a 0 j ++ spots (a + UInt16.ofNat j) 0 k := by
  have hparts : List.range' 0 (j + k) = List.range' 0 j ++ (List.range' 0 k).map (j + ·) := by
    have happend := List.range'_append_1 (s := 0) (m := j) (n := k)
    rw [Nat.zero_add] at happend
    rw [List.map_add_range', Nat.add_zero, happend]
  simp only [spots, hparts, List.map_append, List.map_map]
  congr 1
  apply List.map_congr_left
  intro i _
  simp only [Function.comp_apply, UInt16.ofNat_add, UInt16.add_assoc]

theorem spots_succ (a : UInt16) (k : Nat) : spots a 0 (k + 1) = a :: spots (a + 1) 0 k := by
  rw [Nat.add_comm, spots_add]
  simp [spots]

theorem byteAt_storeAll_of_notMem {bytes : List UInt8} {a b : UInt16} (m : Memory)
    (hb : b ∉ spots a 0 bytes.length) : (m.storeAll a bytes).byteAt b = m.byteAt b := by
  induction bytes generalizing m a with
  | nil => rfl
  | cons v rest ih =>
    rw [List.length_cons, spots_succ, List.mem_cons, not_or] at hb
    rw [Memory.storeAll, ih _ hb.2, Memory.byteAt_store, if_neg hb.1]

/-- Bytes that are stored without running into themselves are there. -/
theorem map_byteAt_storeAll (m : Memory) (bytes : List UInt8) {a : UInt16}
    (hapart : (spots a 0 bytes.length).Nodup) :
    (spots a 0 bytes.length).map (m.storeAll a bytes).byteAt = bytes := by
  induction bytes generalizing m a with
  | nil => rfl
  | cons v rest ih =>
    rw [List.length_cons, spots_succ, List.nodup_cons] at hapart
    rw [List.length_cons, spots_succ, List.map_cons, Memory.storeAll, ih _ hapart.2,
      byteAt_storeAll_of_notMem _ hapart.1, Memory.byteAt_store, if_pos rfl]

end Machine

/-! ## The program -/

/-- The code for one digit: load a byte of each number, add them, with the carry unless this is the
first digit, and store the sum. -/
def digitCode (first : Bool) (x y : UInt8) (target : UInt16) : List UInt8 :=
  [0x3E, x, 0x06, y, if first then 0x80 else 0x88, 0x32, lowByte target, highByte target]

/-- The code for a sum, lowest digit first. -/
def sumCode (first : Bool) (target : UInt16) : List UInt8 → List UInt8 → List UInt8
  | x :: xs, y :: ys => digitCode first x y target ++ sumCode false (target + 1) xs ys
  | _, _ => []

/-- The addition of a digit. -/
def adding (first : Bool) : Instr := if first then .add (.reg .b) else .adc (.reg .b)

theorem ofOpcode?_adding (first : Bool) :
    Instr.ofOpcode? (if first then 0x80 else 0x88) = some (adding first) := by
  cases first <;> rfl

namespace Chip

/-- The chip after the loads of a digit. -/
def loaded (policy : FlagPolicy) (c : Chip) : Chip :=
  (c.next policy (.mvi (.reg .a))).next policy (.mvi (.reg .b))

/-- The chip after the loads and the addition of a digit. -/
def added (policy : FlagPolicy) (first : Bool) (c : Chip) : Chip :=
  (c.loaded policy).next policy (adding first)

/-- The bytes of a digit's code stand from the program counter on. -/
structure HoldsDigit (c : Chip) (first : Bool) (x y : UInt8) (target : UInt16) : Prop where
  loadLeft : c.byte c.pc = 0x3E
  left : c.byte (c.pc + 1) = x
  loadRight : c.byte (c.pc + 2) = 0x06
  right : c.byte (c.pc + 3) = y
  add : c.byte (c.pc + 4) = if first then 0x80 else 0x88
  store : c.byte (c.pc + 5) = 0x32
  low : c.byte (c.pc + 6) = lowByte target
  high : c.byte (c.pc + 7) = highByte target

variable {c : Chip} {first : Bool} {x y : UInt8} {target : UInt16} (policy : FlagPolicy)

theorem holdsDigit_of_code
    (hcode : (Machine.spots c.pc 0 8).map c.byte = digitCode first x y target) :
    c.HoldsDigit first x y target := by
  simp only [Machine.spots, digitCode, List.range', List.map_cons, List.map_nil,
    List.cons.injEq] at hcode
  obtain ⟨h0, h1, h2, h3, h4, h5, h6, h7, -⟩ := hcode
  rw [show c.pc + UInt16.ofNat 0 = c.pc from UInt16.add_zero c.pc] at h0
  exact ⟨h0, h1, h2, h3, h4, h5, h6, h7⟩

theorem pc_loaded (c : Chip) : (c.loaded policy).pc = c.pc + 4 := UInt16.add_assoc c.pc 2 2

theorem added_eq (first : Bool) (c : Chip) :
    c.added policy first
      = { c.loaded policy with pc := (c.loaded policy).pc + 1 }.accumulate policy
          ((c.loaded policy).reg .b) (!first && c.flag .cy) := by
  cases first <;> rfl

theorem pc_added (first : Bool) (c : Chip) : (c.added policy first).pc = c.pc + 5 := by
  rw [added_eq]
  show (c.loaded policy).pc + 1 = _
  rw [pc_loaded, UInt16.add_assoc]
  rfl

/-- Only the store writes. -/
theorem byte_added (first : Bool) (c : Chip) : (c.added policy first).byte = c.byte := by
  rw [added_eq]
  rfl

theorem HoldsDigit.loaded_a (h : c.HoldsDigit first x y target) :
    (c.loaded policy).reg .a = x := h.left

theorem HoldsDigit.loaded_b (h : c.HoldsDigit first x y target) :
    (c.loaded policy).reg .b = y := by
  have hplace : c.pc + 2 + 1 = c.pc + 3 := UInt16.add_assoc c.pc 2 1
  show c.byte (c.pc + 2 + 1) = y
  rw [hplace, h.right]

theorem HoldsDigit.added (h : c.HoldsDigit first x y target) :
    let sum := x.toNat + y.toNat + (!first && c.flag .cy).toNat
    (c.added policy first).reg .a = UInt8.ofNat sum
      ∧ (c.added policy first).flag .cy = decide (256 ≤ sum) := by
  intro sum
  rw [added_eq, h.loaded_b policy]
  show UInt8.ofNat (((c.loaded policy).reg .a).toNat + y.toNat + _) = _
    ∧ decide (256 ≤ ((c.loaded policy).reg .a).toNat + y.toNat + _) = _
  rw [h.loaded_a policy]
  exact ⟨rfl, rfl⟩

/-- The store finds its address after itself. -/
theorem HoldsDigit.target_eq (h : c.HoldsDigit first x y target) :
    ofBytes (c.byte (c.pc + 5 + 2)) (c.byte (c.pc + 5 + 1)) = target := by
  have hlow : c.pc + 5 + 1 = c.pc + 6 := UInt16.add_assoc c.pc 5 1
  have hhigh : c.pc + 5 + 2 = c.pc + 7 := UInt16.add_assoc c.pc 5 2
  rw [hlow, hhigh, h.low, h.high, ofBytes_highByte_lowByte]

/-- What the store of a digit leaves. -/
theorem HoldsDigit.stored (h : c.HoldsDigit first x y target) :
    let sum := x.toNat + y.toNat + (!first && c.flag .cy).toNat
    let c' := (c.added policy first).next policy .sta
    c'.pc = c.pc + 8 ∧ c'.byte = Function.update c.byte target (UInt8.ofNat sum)
      ∧ c'.flag .cy = decide (256 ≤ sum) := by
  intro sum c'
  obtain ⟨ha, hcarry⟩ := h.added policy
  refine ⟨?_, ?_, hcarry⟩
  · show (c.added policy first).pc + 3 = _
    rw [pc_added, UInt16.add_assoc]
    rfl
  · show Function.update (c.added policy first).byte
      (ofBytes ((c.added policy first).byte ((c.added policy first).pc + 2))
        ((c.added policy first).byte ((c.added policy first).pc + 1)))
      ((c.added policy first).reg .a) = _
    rw [byte_added, pc_added, h.target_eq, ha]

end Chip

namespace Machine

open Operation (littleEndian)

variable {m : Machine} {c : Chip} {first : Bool} {x y : UInt8} {target : UInt16}

/-- The code of a digit is executed: it stores the sum of the bytes and the carry before it, and
leaves the carry of that sum. -/
theorem steps_digit (h : m.Shows c) (hcode : c.HoldsDigit first x y target)
    (policy : FlagPolicy) :
    let sum := x.toNat + y.toNat + (!first && c.flag .cy).toNat
    ∃ ops m' c', steps policy 4 m = .ok ops m' ∧ m'.Shows c' ∧ c'.pc = c.pc + 8
      ∧ c'.byte = Function.update c.byte target (UInt8.ofNat sum)
      ∧ c'.flag .cy = decide (256 ≤ sum) := by
  intro sum
  have hloadLeft : Instr.ofOpcode? (c.byte c.pc) = some (.mvi (.reg .a)) := by
    rw [hcode.loadLeft]
    rfl
  obtain ⟨op₁, m₁, hstep₁, h₁⟩ := h.exists_step hloadLeft policy
  let c₁ := c.next policy (.mvi (.reg .a))
  have hloadRight : Instr.ofOpcode? (c₁.byte c₁.pc) = some (.mvi (.reg .b)) := by
    show Instr.ofOpcode? (c.byte (c.pc + 2)) = _
    rw [hcode.loadRight]
    rfl
  obtain ⟨op₂, m₂, hstep₂, h₂⟩ := h₁.exists_step hloadRight policy
  let c₂ := c.loaded policy
  have hadd : Instr.ofOpcode? (c₂.byte c₂.pc) = some (adding first) := by
    show Instr.ofOpcode? (c.byte c₂.pc) = _
    rw [Chip.pc_loaded, hcode.add, ofOpcode?_adding]
  obtain ⟨op₃, m₃, hstep₃, h₃⟩ := h₂.exists_step hadd policy
  let c₃ := c.added policy first
  have hstore : Instr.ofOpcode? (c₃.byte c₃.pc) = some .sta := by
    rw [Chip.byte_added, Chip.pc_added, hcode.store]
    rfl
  obtain ⟨op₄, m₄, hstep₄, h₄⟩ := h₃.exists_step hstore policy
  have hsteps : steps policy 4 m = .ok [op₁, op₂, op₃, op₄] m₄ :=
    steps_cons hstep₁ (steps_cons hstep₂ (steps_cons hstep₃ (steps_cons hstep₄ rfl)))
  exact ⟨_, m₄, _, hsteps, h₄, hcode.stored policy⟩

/-! ## All digits -/

/-- From `c` to `c'` the sum of the numbers was stored: the carry before it went into it, and what
the stored bytes do not hold is in the carry after it. -/
structure Sums (c c' : Chip) (first : Bool) (target : UInt16) (xs ys : List UInt8) : Prop where
  pc : c'.pc = c.pc + UInt16.ofNat (8 * xs.length)
  frame : ∀ a ∉ spots target 0 xs.length, c'.byte a = c.byte a
  value :
    littleEndian ((spots target 0 xs.length).map c'.byte) + 256 ^ xs.length * (c'.flag .cy).toNat
      = littleEndian xs + littleEndian ys + (!first && c.flag .cy).toNat

/-- A byte and a carry hold the sum of two bytes and a carry. -/
theorem digit_value (x y : UInt8) (carry : Bool) :
    let sum := x.toNat + y.toNat + carry.toNat
    (UInt8.ofNat sum).toNat + 256 * (decide (256 ≤ sum)).toNat = sum := by
  intro sum
  have hx := x.toNat_lt
  have hy := y.toNat_lt
  have hcarry := Bool.toNat_le carry
  rw [UInt8.toNat_ofNat', Alu.toNat_decide]
  split <;> omega

/-- A digit below a sum. -/
theorem Sums.cons {c c₁ c' : Chip} {xs ys : List UInt8}
    (hpc : c₁.pc = c.pc + 8)
    (hbyte : c₁.byte = Function.update c.byte target
      (UInt8.ofNat (x.toNat + y.toNat + (!first && c.flag .cy).toNat)))
    (hcarry : c₁.flag .cy = decide (256 ≤ x.toNat + y.toNat + (!first && c.flag .cy).toNat))
    (hfresh : target ∉ spots (target + 1) 0 xs.length)
    (h : Sums c₁ c' false (target + 1) xs ys) :
    Sums c c' first target (x :: xs) (y :: ys) where
  pc := by
    rw [h.pc, hpc, UInt16.add_assoc, List.length_cons, Nat.mul_succ, Nat.add_comm,
      UInt16.ofNat_add]
    rfl
  frame := by
    intro a ha
    rw [List.length_cons, spots_succ, List.mem_cons, not_or] at ha
    rw [h.frame a ha.2, hbyte, Function.update_of_ne ha.1]
  value := by
    have hdigit : c'.byte target
        = UInt8.ofNat (x.toNat + y.toNat + (!first && c.flag .cy).toNat) := by
      rw [h.frame target hfresh, hbyte, Function.update_self]
    have hvalue := digit_value x y (!first && c.flag .cy)
    have hrest := h.value
    rw [hcarry, Bool.not_false, Bool.true_and] at hrest
    rw [List.length_cons, spots_succ, List.map_cons, littleEndian, littleEndian, littleEndian,
      hdigit, Nat.pow_succ', Nat.mul_assoc]
    dsimp only at hvalue
    omega

/-- The code of a sum is executed, with four steps for each digit. -/
theorem steps_sum (h : m.Shows c) {xs ys : List UInt8} (hlength : xs.length = ys.length)
    (hfirst : xs = [] → first = false)
    (hcode : (spots c.pc 0 (8 * xs.length)).map c.byte = sumCode first target xs ys)
    (hapart : (spots c.pc 0 (8 * xs.length) ++ spots target 0 xs.length).Nodup)
    (policy : FlagPolicy) :
    ∃ ops m' c', steps policy (4 * xs.length) m = .ok ops m' ∧ m'.Shows c'
      ∧ Sums c c' first target xs ys := by
  -- the digits that are left, with the carry of those behind
  induction xs generalizing m c first target ys with
  | nil =>
    obtain rfl : ys = [] := List.eq_nil_of_length_eq_zero hlength.symm
    obtain rfl := hfirst rfl
    refine ⟨[], m, c, rfl, h, ?_, fun a _ => rfl, ?_⟩
    · exact (UInt16.add_zero c.pc).symm
    · simp [spots, littleEndian]
  | cons x xs ih =>
    cases ys with
    | nil => cases hlength
    | cons y ys =>
      have hsplit : spots c.pc 0 (8 * (xs.length + 1))
          = spots c.pc 0 8 ++ spots (c.pc + 8) 0 (8 * xs.length) := by
        rw [Nat.mul_succ, Nat.add_comm, spots_add]
        rfl
      rw [List.length_cons, hsplit, spots_succ target] at hapart
      rw [List.length_cons, hsplit, List.map_append, sumCode] at hcode
      obtain ⟨hdigit, hrest⟩ := List.append_inj hcode (by simp [spots, digitCode])
      obtain ⟨ops₁, m₁, c₁, hsteps₁, h₁, hpc, hbyte, hcarry⟩ :=
        steps_digit h (Chip.holdsDigit_of_code hdigit) policy
      obtain ⟨-, hresults, hdisjoint⟩ := List.nodup_append.1 hapart
      have hfresh := (List.nodup_cons.1 hresults).1
      have hcode₁ : (spots c₁.pc 0 (8 * xs.length)).map c₁.byte
          = sumCode false (target + 1) xs ys := by
        rw [← hrest, hpc, hbyte]
        apply List.map_congr_left
        intro a ha
        have hne := hdisjoint a (List.mem_append_right _ ha) target List.mem_cons_self
        exact Function.update_of_ne hne _ _
      have hapart₁ : (spots c₁.pc 0 (8 * xs.length) ++ spots (target + 1) 0 xs.length).Nodup := by
        rw [hpc]
        exact hapart.sublist
          ((List.sublist_append_right _ _).append (List.sublist_cons_self _ _))
      obtain ⟨ops₂, m₂, c₂, hsteps₂, h₂, hsums⟩ :=
        ih h₁ (Nat.succ.inj hlength) (fun _ => rfl) hcode₁ hapart₁
      refine ⟨ops₁ ++ ops₂, m₂, c₂, ?_, h₂, hsums.cons hpc hbyte hcarry hfresh⟩
      rw [List.length_cons, Nat.mul_succ, Nat.add_comm]
      exact steps_append hsteps₁ hsteps₂

/-- Where the sum of the numbers was stored it can be read off: the bytes are its digits, and the
carry says whether it is longer than the numbers. -/
theorem Sums.digits {c c' : Chip} {xs ys : List UInt8} (h : Sums c c' true target xs ys) :
    let total := littleEndian xs + littleEndian ys
    (∀ i < xs.length, (c'.byte (target + UInt16.ofNat i)).toNat
        = total % 256 ^ xs.length / 256 ^ i % 256)
      ∧ c'.flag .cy = decide (256 ^ xs.length ≤ total) := by
  intro total
  let stored := (spots target 0 xs.length).map c'.byte
  have hstored : stored.length = xs.length := by simp [stored, spots]
  have hvalue : littleEndian stored + 256 ^ xs.length * (c'.flag .cy).toNat = total := h.value
  have hlt : littleEndian stored < 256 ^ xs.length := hstored ▸ Operation.littleEndian_lt stored
  have hlow : littleEndian stored = total % 256 ^ xs.length := by
    rw [← hvalue, Nat.add_mul_mod_self_left, Nat.mod_eq_of_lt hlt]
  constructor
  · intro i hi
    have hdigit := Operation.toNat_getElem_eq stored (hstored ▸ hi)
    rw [← hlow, ← hdigit]
    simp [stored, spots]
  · cases hcarry : c'.flag .cy with
    | false =>
      rw [hcarry, Bool.toNat_false, Nat.mul_zero, Nat.add_zero] at hvalue
      exact (decide_eq_false (by omega)).symm
    | true =>
      rw [hcarry, Bool.toNat_true, Nat.mul_one] at hvalue
      exact (decide_eq_true (by omega)).symm

/-- A program for the sum of two numbers computes it, under each flag policy: the results are the
digits of the sum, the carry is what is above them, and nothing else in memory changes. -/
theorem sum_of_numbers_is_stored (hready : m.Ready) {place : UInt16} {xs ys : List UInt8}
    (hsome : 0 < xs.length) (hlength : xs.length = ys.length)
    (hpc : m.state.pc.int? = some (place.toNat : Int))
    (hcode : (spots place 0 (8 * xs.length)).map m.memory.byteAt = sumCode true target xs ys)
    (hapart : (spots place 0 (8 * xs.length) ++ spots target 0 xs.length).Nodup)
    (policy : FlagPolicy) :
    let total := littleEndian xs + littleEndian ys
    ∃ ops m', steps policy (4 * xs.length) m = .ok ops m'
      ∧ (∀ i < xs.length, (m'.memory.byteAt (target + UInt16.ofNat i)).toNat
          = total % 256 ^ xs.length / 256 ^ i % 256)
      ∧ (m'.state.cc.get .cy).int? = some ((decide (256 ^ xs.length ≤ total)).toNat : Int)
      ∧ m'.state.pc.int? = some ((place + UInt16.ofNat (8 * xs.length)).toNat : Int)
      ∧ ∀ a ∉ spots target 0 xs.length, m'.memory.byteAt a = m.memory.byteAt a := by
  intro total
  have hshows := hready.shows
  have hplace : m.chip.pc = place := by
    apply UInt16.toNat_inj.1
    exact Int.ofNat_inj.1 (Option.some.inj (hshows.pc.symm.trans hpc))
  have hbyte : m.memory.byteAt = m.chip.byte := funext hshows.byte
  have hfirst : xs = [] → true = false := fun hnil => absurd hsome (by simp [hnil])
  rw [← hplace, hbyte] at hcode
  rw [← hplace] at hapart
  obtain ⟨ops, m', c', hsteps, h', hsums⟩ :=
    steps_sum hshows hlength hfirst hcode hapart policy
  obtain ⟨hdigits, hcarry⟩ := hsums.digits
  refine ⟨ops, m', hsteps, fun i hi => ?_, ?_, ?_, fun a ha => ?_⟩
  · rw [h'.byte, hdigits i hi]
  · rw [h'.flag, hcarry]
  · rw [h'.pc, hsums.pc, hplace]
  · rw [h'.byte, hsums.frame a ha, hshows.byte]

/-- The greatest number of two bytes and 1: both results are zero, the carry is left, and the
program runs over the end of the address space. -/
theorem sum_over_two_bytes_wraps :
    let code := sumCode true 0x2000 [0xFF, 0xFF] [0x01, 0x00]
    let m : Machine :=
      { state := { pc := .int 0xFFF8 }, memory := Memory.zero.storeAll 0xFFF8 code }
    ∃ ops m', steps .clear 8 m = .ok ops m' ∧ m'.memory.byteAt 0x2000 = 0
      ∧ m'.memory.byteAt 0x2001 = 0 ∧ (m'.state.cc.get .cy).int? = some 1
      ∧ m'.state.pc.int? = some 8 := by
  intro code m
  have hready : m.Ready := ⟨{ CpuState.whole_fresh with pc := rfl }, rfl, rfl⟩
  have hsome : 0 < ([0xFF, 0xFF] : List UInt8).length := by decide
  have hlength : ([0xFF, 0xFF] : List UInt8).length = ([0x01, 0x00] : List UInt8).length := rfl
  have hapart : (spots 0xFFF8 0 16 ++ spots 0x2000 0 2).Nodup := by decide
  have hcode : (spots 0xFFF8 0 16).map m.memory.byteAt
      = sumCode true 0x2000 [0xFF, 0xFF] [0x01, 0x00] :=
    map_byteAt_storeAll Memory.zero code (List.nodup_append.1 hapart).1
  obtain ⟨ops, m', hsteps, hdigits, hcarry, hpc, -⟩ :=
    sum_of_numbers_is_stored hready hsome hlength rfl hcode hapart .clear
  exact ⟨ops, m', hsteps, UInt8.toNat_inj.1 (hdigits 0 (by decide)),
    UInt8.toNat_inj.1 (hdigits 1 (by decide)), hcarry, hpc⟩

end Machine

end Emu8080
