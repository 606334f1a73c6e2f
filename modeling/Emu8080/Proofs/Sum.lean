/-
# Emu8080.Proofs.Sum -- the ripple chain is integer addition

`Alu.add` works bit by bit.  Here its three outputs are read off as numbers: the
value is the sum modulo the width, the carry says whether the sum left the
width, and the auxiliary carry whether the low halves of the lowest bytes left
four bits.  All three follow from `ripple_value`, once for the whole chain and
once for its first four positions.
-/
import Emu8080.Alu.Adder
import Emu8080.Proofs.Showable

namespace Emu8080.Alu

set_option autoImplicit false

theorem ofBits_lt (bits : List Bool) : ofBits bits < Nat.pow 2 bits.length := by
  induction bits with
  | nil => decide
  | cons b rest ih =>
    have hbit := Bool.toNat_le b
    simp only [ofBits, List.length_cons, weight_succ]
    omega

theorem length_ripple (pairs : List (Bool × Bool)) (carry : Bool) :
    (ripple pairs carry).1.length = pairs.length := by
  induction pairs generalizing carry with
  | nil => rfl
  | cons head rest ih => simp only [ripple, List.length_cons, ih]

/-- The lowest positions of a number are its remainder. -/
theorem take_toBits {k width : Nat} (h : k ≤ width) (n : Nat) :
    (toBits width n).take k = toBits k n := by
  induction k generalizing width n with
  | zero => rfl
  | succ k ih =>
    cases width with
    | zero => omega
    | succ width => simp only [toBits, List.take_succ_cons, ih (Nat.le_of_succ_le_succ h)]

/-- What the chain gives for the bits of two numbers. -/
theorem ripple_toBits (width x y : Nat) (carry : Bool) :
    ofBits (ripple ((toBits width x).zip (toBits width y)) carry).1
        + Nat.pow 2 width * (ripple ((toBits width x).zip (toBits width y)) carry).2.toNat
      = x % Nat.pow 2 width + y % Nat.pow 2 width + carry.toNat := by
  have hlength : ((toBits width x).zip (toBits width y)).length = width := by
    simp [length_toBits]
  have hsum := ripple_value ((toBits width x).zip (toBits width y)) carry
  rw [hlength, List.map_fst_zip (by simp [length_toBits]),
    List.map_snd_zip (by simp [length_toBits]), ofBits_toBits, ofBits_toBits] at hsum
  exact hsum

theorem ripple_toBits_value (width x y : Nat) (carry : Bool) :
    ofBits (ripple ((toBits width x).zip (toBits width y)) carry).1
      = (x % Nat.pow 2 width + y % Nat.pow 2 width + carry.toNat) % Nat.pow 2 width := by
  have hsum := ripple_toBits width x y carry
  have hlt := ofBits_lt (ripple ((toBits width x).zip (toBits width y)) carry).1
  have hlength : ((toBits width x).zip (toBits width y)).length = width := by
    simp [length_toBits]
  rw [length_ripple, hlength] at hlt
  rw [← hsum, Nat.add_mul_mod_self_left, Nat.mod_eq_of_lt hlt]

theorem ripple_toBits_carry (width x y : Nat) (carry : Bool) :
    (ripple ((toBits width x).zip (toBits width y)) carry).2
      = decide (Nat.pow 2 width ≤ x % Nat.pow 2 width + y % Nat.pow 2 width + carry.toNat) := by
  have hsum := ripple_toBits width x y carry
  have hlt := ofBits_lt (ripple ((toBits width x).zip (toBits width y)) carry).1
  have hlength : ((toBits width x).zip (toBits width y)).length = width := by
    simp [length_toBits]
  rw [length_ripple, hlength] at hlt
  cases hout : (ripple ((toBits width x).zip (toBits width y)) carry).2 with
  | false =>
    rw [hout, Bool.toNat_false, Nat.mul_zero] at hsum
    exact (decide_eq_false (by omega)).symm
  | true =>
    rw [hout, Bool.toNat_true, Nat.mul_one] at hsum
    exact (decide_eq_true (by omega)).symm

theorem auxCarryBit_le (w : Width) : auxCarryBit ≤ w.bits := by cases w <;> decide

/-- The sum of two integers and a carry, each reduced to what the adder sees of it. -/
def total (w : Width) (a b carryIn : Int) : Nat :=
  reduce w a + reduce w b + (carryIn % 2).toNat

theorem toNat_first (carryIn : Int) : (carryIn % 2 == 1).toNat = (carryIn % 2).toNat := by
  rcases Int.emod_two_eq carryIn with h | h <;> simp [h]

theorem reduce_lt (w : Width) (n : Int) : reduce w n < w.bound := by
  have hpos : 0 < w.bound := by cases w <;> decide
  have hlt : n % (w.bound : Int) < w.bound := Int.emod_lt_of_pos n (by omega)
  unfold reduce
  omega

/-- The value is the sum modulo the width. -/
theorem value_add (w : Width) (a b carryIn : Int) :
    (add w a b carryIn).value = total w a b carryIn % w.bound := by
  have ha := Nat.mod_eq_of_lt (reduce_lt w a)
  have hb := Nat.mod_eq_of_lt (reduce_lt w b)
  have hvalue := ripple_toBits_value w.bits (reduce w a) (reduce w b) (carryIn % 2 == 1)
  rw [toNat_first] at hvalue
  simp only [Width.bound] at ha hb
  rw [ha, hb] at hvalue
  exact hvalue

/-- The carry says that the sum left the width. -/
theorem carry_add (w : Width) (a b carryIn : Int) :
    (add w a b carryIn).carry = decide (w.bound ≤ total w a b carryIn) := by
  have ha := Nat.mod_eq_of_lt (reduce_lt w a)
  have hb := Nat.mod_eq_of_lt (reduce_lt w b)
  have hcarry := ripple_toBits_carry w.bits (reduce w a) (reduce w b) (carryIn % 2 == 1)
  rw [toNat_first] at hcarry
  simp only [Width.bound] at ha hb
  rw [ha, hb] at hcarry
  exact hcarry

/-- The auxiliary carry says that the low halves left four bits. -/
theorem auxCarry_add (w : Width) (a b carryIn : Int) :
    (add w a b carryIn).auxCarry
      = decide (16 ≤ reduce w a % 16 + reduce w b % 16 + (carryIn % 2).toNat) := by
  have hcarry := ripple_toBits_carry auxCarryBit (reduce w a) (reduce w b) (carryIn % 2 == 1)
  rw [toNat_first] at hcarry
  simp only [add, List.zip, List.take_zipWith, take_toBits (auxCarryBit_le w)]
  exact hcarry

theorem reduce_byte_of_lt {n : Nat} (h : n < 256) : reduce .byte n = n := by
  simp only [reduce, Width.bound, Width.bits]
  exact_mod_cast Nat.mod_eq_of_lt h

theorem reduce_word_of_lt {n : Nat} (h : n < 65536) : reduce .word n = n := by
  simp only [reduce, Width.bound, Width.bits]
  exact_mod_cast Nat.mod_eq_of_lt h

/-! ## Sums of values of the host -/

/-- What integer addition modulo `modulus` says that an addition leaves. -/
structure IsSum (modulus m n i : Int) (sum : Sum) : Prop where
  value : (sum.value : Int) = (m % modulus + n % modulus + i % 2) % modulus
  carry : sum.carry = true ↔ modulus ≤ m % modulus + n % modulus + i % 2
  auxCarry : sum.auxCarry = true ↔ 16 ≤ m % modulus % 16 + n % modulus % 16 + i % 2

theorem cast_reduce (w : Width) (n : Int) : (reduce w n : Int) = n % w.bound := by
  have hpos : 0 < w.bound := by cases w <;> decide
  exact Int.toNat_of_nonneg (Int.emod_nonneg n (by omega))

theorem cast_total (w : Width) (m n i : Int) :
    (total w m n i : Int) = m % w.bound + n % w.bound + i % 2 := by
  have hbit : ((i % 2).toNat : Int) = i % 2 := Int.toNat_of_nonneg (by omega)
  rw [total, Int.natCast_add, Int.natCast_add, cast_reduce, cast_reduce, hbit]

/-- The chain adds as integers do. -/
theorem isSum_add (w : Width) (m n i : Int) : IsSum w.bound m n i (add w m n i) where
  value := by rw [value_add, Int.natCast_emod, cast_total]
  carry := by rw [carry_add, decide_eq_true_iff, ← cast_total, Int.ofNat_le]
  auxCarry := by
    have hm := cast_reduce w m
    have hn := cast_reduce w n
    rw [auxCarry_add, decide_eq_true_iff, ← hm, ← hn]
    omega

variable {modulus m n i y : Int} {sum : Sum}

/-- Adding the complement of `y` subtracts it, and carries when nothing is borrowed. -/
theorem IsSum.of_complement (h : IsSum modulus m (-y % modulus) 0 sum) (hy : 1 ≤ y)
    (hlt : y < modulus) :
    (sum.value : Int) = (m % modulus - y) % modulus ∧ (sum.carry = true ↔ y ≤ m % modulus) := by
  have hcomplement : -y % modulus = modulus - y := by
    rw [← Int.add_emod_right, Int.emod_eq_of_lt (by omega) (by omega)]
    omega
  have hsum : m % modulus + -y % modulus % modulus + 0 % 2 = m % modulus - y + modulus := by
    rw [Int.emod_emod, hcomplement]
    omega
  constructor
  · rw [h.value, hsum, Int.add_emod_right]
  · rw [h.carry, hsum]
    omega

variable {a b width carryIn : Datum} {k : Int}

theorem Width.ofDatum?_of_int? (h : width.int? = some k) :
    Width.ofDatum? width = if k = 8 then some .byte else if k = 16 then some .word else none := by
  simp only [Width.ofDatum?, Datum.agrees_of_int? h, Datum.agreesInt, beq_iff_eq]

theorem canBeKey_of_int? (h : width.int? = some k) : width.canBeKey = true := by
  cases width with
  | int _ | bool _ => rfl
  | null | float _ | str _ | list _ | map _ => exact nomatch h

/-- Within a width, integers are added by the chain. -/
theorem addBits_of_width {w : Width} (ha : a.int? = some m) (hb : b.int? = some n)
    (hwidth : width.int? = some k) (hcarry : carryIn.int? = some i)
    (hw : Width.ofDatum? width = some w) :
    addBits a b width carryIn = .ok (add w m n i) := by
  simp only [addBits, canBeKey_of_int? hwidth, hw, Datum.whole, ha, hb, hcarry, hwidth]
  rfl

/-- Eight and sixteen are widths, and there the adder adds as integers do, whatever the size
and the sign of the summands; no other integer is a width.  So adding a complement subtracts,
and its carry says that nothing was borrowed. -/
theorem addBits_exact (ha : a.int? = some m) (hb : b.int? = some n)
    (hwidth : width.int? = some k) (hcarry : carryIn.int? = some i) :
    let modulus := Int.pow 2 k.toNat
    (k = 8 ∨ k = 16 → ∃ sum, addBits a b width carryIn = .ok sum ∧ IsSum modulus m n i sum)
      ∧ (k ≠ 8 → k ≠ 16 →
          addBits a b width carryIn = .error (.showing width (.adderWidth width)))
      ∧ ∀ y : Int, k = 8 ∨ k = 16 → 1 ≤ y → y < modulus → n = -y % modulus → i = 0 →
          ∃ sum, addBits a b width carryIn = .ok sum
            ∧ (sum.value : Int) = (m % modulus - y) % modulus
            ∧ (sum.carry = true ↔ y ≤ m % modulus) := by
  intro modulus
  have hfound := Width.ofDatum?_of_int? hwidth
  have hadds : k = 8 ∨ k = 16 →
      ∃ sum, addBits a b width carryIn = .ok sum ∧ IsSum modulus m n i sum := by
    rintro (rfl | rfl)
    · exact ⟨_, addBits_of_width ha hb hwidth hcarry hfound, isSum_add .byte m n i⟩
    · exact ⟨_, addBits_of_width ha hb hwidth hcarry hfound, isSum_add .word m n i⟩
  refine ⟨hadds, ?_, ?_⟩
  · intro hbyte hword
    rw [if_neg hbyte, if_neg hword] at hfound
    simp only [addBits, canBeKey_of_int? hwidth, hfound]
    rfl
  · rintro y hk hy hlt rfl rfl
    obtain ⟨sum, hsum, hexact⟩ := hadds hk
    exact ⟨sum, hsum, hexact.of_complement hy hlt⟩

/-- Taking 5 from -254, which is 2 within a byte, borrows; a width of twelve bits is refused. -/
theorem addBits_exact_borrows :
    ∃ sum, addBits (.int (-254)) (.int 251) (.int 8) (.bool false) = .ok sum
      ∧ IsSum 256 (-254) 251 0 sum ∧ (sum.value : Int) = (2 - 5) % 256 ∧ sum.carry = false
      ∧ addBits (.int (-254)) (.int 251) (.int 12) (.bool false)
        = .error (.adderWidth (.int 12)) := by
  have hcarryIn : (Datum.bool false).int? = some 0 := rfl
  obtain ⟨hadds, -, hsubtracts⟩ :=
    addBits_exact (Datum.int?_int (-254)) (Datum.int?_int 251) (Datum.int?_int 8) hcarryIn
  obtain ⟨-, hrefuses, -⟩ :=
    addBits_exact (Datum.int?_int (-254)) (Datum.int?_int 251) (Datum.int?_int 12) hcarryIn
  obtain ⟨sum, hsum, hexact⟩ := hadds (.inl rfl)
  obtain ⟨sum', hsum', hvalue, hcarry⟩ :=
    hsubtracts 5 (.inl rfl) (by decide) (by decide) (by decide) rfl
  cases hsum.symm.trans hsum'
  have hrefused := hrefuses (by decide) (by decide)
  rw [Fault.showing_of_lt (by decide)] at hrefused
  refine ⟨sum, hsum, hexact, hvalue, ?_, hrefused⟩
  exact Bool.eq_false_iff.2 fun hset => absurd (hcarry.1 hset) (by decide)

end Emu8080.Alu
