/-
# Emu8080.Proofs.Arithmetic -- the arithmetic unit on bytes and words

The adder, the rotations and the flags work on integers of any size.  Here they
are given bytes, words and bits, and what they return is named by the operations
of a `Chip`: a sum of naturals that is cut to its width, a number that moves
within eight or nine bits, and the flags of a byte.
-/
import Emu8080.Alu.Rotate
import Emu8080.Instr.Basic
import Emu8080.Proofs.Chip
import Emu8080.Proofs.Sum

namespace Emu8080

set_option autoImplicit false

namespace Alu

/-! ## Sums -/

theorem toNat_decide (p : Prop) [Decidable p] : (decide p).toNat = if p then 1 else 0 := by
  by_cases h : p
  · rw [decide_eq_true h, if_pos h, Bool.toNat_true]
  · rw [decide_eq_false h, if_neg h, Bool.toNat_false]

theorem toInt_eq (b : Bool) : b.toInt = (b.toNat : Int) := by
  cases b <;> rfl

theorem bit_emod (b : Bool) : ((b.toNat : Int) % 2).toNat = b.toNat := by
  cases b <;> rfl

theorem reduce_byte (v : UInt8) : reduce .byte (v.toNat : Int) = v.toNat :=
  reduce_byte_of_lt v.toNat_lt

theorem reduce_word (w : UInt16) : reduce .word (w.toNat : Int) = w.toNat :=
  reduce_word_of_lt w.toNat_lt

/-- Adding two bytes and a carry. -/
theorem add_bytes (x y : UInt8) (carry : Bool) :
    add .byte (x.toNat : Int) (y.toNat : Int) (carry.toNat : Int)
      = { value := (UInt8.ofNat (x.toNat + y.toNat + carry.toNat)).toNat
          carry := decide (256 ≤ x.toNat + y.toNat + carry.toNat)
          auxCarry := decide (16 ≤ x.toNat % 16 + y.toNat % 16 + carry.toNat) } := by
  have htotal : total .byte (x.toNat : Int) (y.toNat : Int) (carry.toNat : Int)
      = x.toNat + y.toNat + carry.toNat := by
    rw [total, reduce_byte, reduce_byte, bit_emod]
  have hvalue := value_add .byte (x.toNat : Int) (y.toNat : Int) (carry.toNat : Int)
  have hcarry := carry_add .byte (x.toNat : Int) (y.toNat : Int) (carry.toNat : Int)
  have hauxCarry := auxCarry_add .byte (x.toNat : Int) (y.toNat : Int) (carry.toNat : Int)
  rw [htotal] at hvalue hcarry
  rw [reduce_byte, reduce_byte, bit_emod] at hauxCarry
  rw [UInt8.toNat_ofNat']
  exact Sum.mk.injEq .. ▸ ⟨hvalue, hcarry, hauxCarry⟩

/-- Adding two words. -/
theorem add_words (x y : UInt16) :
    (add .word (x.toNat : Int) (y.toNat : Int) 0).value = (UInt16.ofNat (x.toNat + y.toNat)).toNat
      ∧ (add .word (x.toNat : Int) (y.toNat : Int) 0).carry
        = decide (65536 ≤ x.toNat + y.toNat) := by
  have htotal : total .word (x.toNat : Int) (y.toNat : Int) 0 = x.toNat + y.toNat := by
    rw [total, reduce_word, reduce_word]
    rfl
  rw [value_add, carry_add, htotal, UInt16.toNat_ofNat']
  exact ⟨rfl, rfl⟩

/-- The increment of a word is made byte by byte, the carry of the low byte going into the
high one. -/
theorem inx_eq (w : UInt16) :
    pack (add .byte ((highByte w).toNat : Int) 0
        (add .byte ((lowByte w).toNat : Int) 1 0).carry.toInt).value
      (add .byte ((lowByte w).toNat : Int) 1 0).value = ((w + 1).toNat : Int) := by
  have hlow : add .byte ((lowByte w).toNat : Int) 1 0 = _ := add_bytes (lowByte w) 1 false
  have hhigh : ∀ b : Bool, (add .byte ((highByte w).toNat : Int) 0 b.toInt).value
      = ((highByte w).toNat + b.toNat) % 256 := by
    intro b
    rw [toInt_eq]
    exact (congrArg Sum.value (add_bytes (highByte w) 0 b)).trans UInt8.toNat_ofNat'
  have hw := w.toNat_lt
  rw [hlow, hhigh]
  simp only [pack, UInt16.toNat_add, UInt8.toNat_ofNat', toNat_lowByte, toNat_highByte,
    UInt16.toNat_one, UInt8.toNat_one, Bool.toNat_false, toNat_decide]
  split <;> omega

/-- Adding one carries out of the low half of a byte when it is full. -/
theorem half_increment (v : UInt8) :
    decide (16 ≤ v.toNat % 16 + UInt8.toNat 1 % 16) = (v.toNat % 16 == 15) := by
  rw [Bool.eq_iff_iff, decide_eq_true_iff, beq_iff_eq, UInt8.toNat_one]
  omega

/-- Taking one away is adding 255, which carries out of the low half unless that is empty. -/
theorem half_decrement (v : UInt8) :
    decide (16 ≤ v.toNat % 16 + UInt8.toNat 255 % 16) = (v.toNat % 16 != 0) := by
  have hmax : UInt8.toNat 255 = 255 := rfl
  rw [Bool.eq_iff_iff, decide_eq_true_iff, bne_iff_ne, hmax]
  omega

theorem add_max (v : UInt8) : v + 255 = v - 1 := by
  rw [UInt8.sub_eq_add_neg]
  rfl

theorem dcx_eq (w : UInt16) :
    ((add .word (w.toNat : Int) 0xFFFF 0).value : Int) = ((w - 1).toNat : Int) := by
  have hvalue : (add .word (w.toNat : Int) 0xFFFF 0).value = _ := (add_words w 0xFFFF).1
  have hmax : (0xFFFF : UInt16).toNat = 65535 := rfl
  have hw := w.toNat_lt
  rw [hvalue, UInt16.toNat_ofNat', UInt16.toNat_sub, UInt16.toNat_one, hmax]
  omega

/-! ## Rotations -/

theorem bitAt_seven (a : UInt8) :
    bitAt 7 (a.toNat : Int) = ((decide (128 ≤ a.toNat)).toNat : Int) := by
  have ha := a.toNat_lt
  have hweight : Nat.pow 2 7 = 128 := rfl
  rw [bitAt, hweight, toNat_decide]
  split <;> omega

theorem bitAt_zero (n : Nat) : bitAt 0 (n : Int) = ((n % 2 == 1).toNat : Int) := by
  have hweight : Nat.pow 2 0 = 1 := rfl
  rw [bitAt, hweight]
  rcases Nat.mod_two_eq_zero_or_one n with h | h <;> rw [h] <;> simp <;> omega

theorem toNat_mod_two (n : Nat) : (n % 2 == 1).toNat = n % 2 := by
  rcases Nat.mod_two_eq_zero_or_one n with h | h <;> rw [h] <;> rfl

theorem rotateUp_eight (n : Nat) : rotateUp 8 n = 2 * n % 256 + n / 128 := rfl

theorem rotateUp_nine (n : Nat) : rotateUp 9 n = 2 * n % 512 + n / 256 := rfl

theorem rotateDown_eight (n : Nat) : rotateDown 8 n = n / 2 + 128 * (n % 2) := rfl

theorem rotateDown_nine (n : Nat) : rotateDown 9 n = n / 2 + 256 * (n % 2) := rfl

/-- Moving up eight bits, the highest one comes in below. -/
theorem rotateUp_byte {n : Nat} (h : n < 256) :
    rotateUp 8 n % 256 = (2 * n + (decide (128 ≤ n)).toNat) % 256 := by
  have hhigh : n / 128 = (decide (128 ≤ n)).toNat := by
    rw [toNat_decide]
    split <;> omega
  rw [rotateUp_eight, hhigh]
  omega

/-- Moving up nine bits, the carry comes in below. -/
theorem rotateUp_wide {n : Nat} (h : n < 256) (carry : Bool) :
    rotateUp 9 (256 * carry.toNat + n) = 2 * n + carry.toNat := by
  have hcarry := Bool.toNat_le carry
  rw [rotateUp_nine]
  omega

/-- Moving down nine bits, the lowest one comes in above. -/
theorem rotateDown_wide (n : Nat) (carry : Bool) :
    rotateDown 9 (256 * carry.toNat + n) = n / 2 + 128 * carry.toNat + 256 * (n % 2) := by
  rw [rotateDown_nine]
  omega

theorem rlc_byte (a : UInt8) :
    rlc (a.toNat : Int)
      = (((UInt8.ofNat (rotateUp 8 a.toNat)).toNat : Int),
          ((decide (128 ≤ a.toNat)).toNat : Int)) := by
  rw [rlc, bitAt_seven, UInt8.toNat_ofNat', rotateUp_byte a.toNat_lt, Prod.mk.injEq]
  exact ⟨by omega, rfl⟩

/-- Moved down within a byte, bit 7 is free for what comes in. -/
theorem orBit7_half {n : Nat} (h : n < 256) (bit : Bool) :
    orBit7 ((n : Int) / 2) (bit.toNat : Int) = ((n / 2 + 128 * bit.toNat : Nat) : Int) := by
  have hweight : Nat.pow 2 7 = 128 := rfl
  have hfree : bitAt 7 ((n : Int) / 2) = 0 := by
    rw [bitAt, hweight]
    omega
  rw [orBit7, if_pos hfree]
  omega

theorem rrc_byte (a : UInt8) :
    rrc (a.toNat : Int)
      = (((UInt8.ofNat (rotateDown 8 a.toNat)).toNat : Int), ((a.toNat % 2 == 1).toNat : Int)) := by
  have ha := a.toNat_lt
  rw [rrc, bitAt_zero, orBit7_half ha, toNat_mod_two, rotateDown_eight, UInt8.toNat_ofNat',
    Prod.mk.injEq]
  exact ⟨by omega, rfl⟩

/-- The accumulator and the carry move up together: the ninth bit is the carry out. -/
theorem ral_byte (a : UInt8) (carry : Bool) :
    let up := rotateUp 9 (256 * carry.toNat + a.toNat)
    ral (a.toNat : Int) (carry.toNat : Int)
      = (((UInt8.ofNat up).toNat : Int), ((decide (256 ≤ up)).toNat : Int)) := by
  have ha := a.toNat_lt
  have hcarry := Bool.toNat_le carry
  intro up
  have hup : up = 2 * a.toNat + carry.toNat := rotateUp_wide ha carry
  have hout : 128 ≤ a.toNat ↔ 256 ≤ up := by omega
  rw [ral, bitAt_seven, UInt8.toNat_ofNat', Prod.mk.injEq]
  refine ⟨by omega, ?_⟩
  simp only [hout]

/-- The accumulator and the carry move down together: the ninth bit is the carry out. -/
theorem rar_byte_carry (a : UInt8) (carry : Bool) :
    let down := rotateDown 9 (256 * carry.toNat + a.toNat)
    rar (a.toNat : Int) (carry.toNat : Int)
      = (((UInt8.ofNat down).toNat : Int), ((decide (256 ≤ down)).toNat : Int)) := by
  have ha := a.toNat_lt
  have hcarry := Bool.toNat_le carry
  intro down
  have hdown : down = a.toNat / 2 + 128 * carry.toNat + 256 * (a.toNat % 2) :=
    rotateDown_wide a.toNat carry
  have hbit : (carry.toNat : Int) % 2 = carry.toNat := by omega
  have hout : (a.toNat % 2 == 1) = decide (256 ≤ down) := by
    rw [Bool.eq_iff_iff, beq_iff_eq, decide_eq_true_iff]
    omega
  rw [rar, hbit, orBit7_half ha, bitAt_zero, hout, UInt8.toNat_ofNat', Prod.mk.injEq]
  exact ⟨by omega, rfl⟩

theorem complement_eq (a : UInt8) : (-(a.toNat : Int) - 1) % 256 = ((255 - a).toNat : Int) := by
  have ha := a.toNat_lt
  have hmax : (255 : UInt8).toNat = 255 := rfl
  rw [UInt8.toNat_sub, hmax]
  omega

/-- Inverting the low bit of a bit. -/
theorem flip_eq (b : Bool) :
    (if (b.toNat : Int) % 2 = 0 then (b.toNat : Int) + 1 else (b.toNat : Int) - 1)
      = ((!b).toNat : Int) := by
  cases b <;> rfl

/-! ## Flags -/

theorem toInt_emod (b : Bool) : (b.toInt % 2 == 1) = b := by
  cases b <;> rfl

/-- The flags that a byte sets, with the two carries. -/
theorem flagOf_byte (v : UInt8) (carry auxCarry : Bool) (f : Flag) :
    Chip.byteFlags v (some carry) auxCarry f
      = some (flagOf (v.toNat : Int) carry.toInt auxCarry.toInt f) := by
  have hv := v.toNat_lt
  cases f with
  | z =>
    have hzero : (v == 0) = ((v.toNat : Int) == 0) := by
      rw [Bool.eq_iff_iff, beq_iff_eq, beq_iff_eq, ← UInt8.toNat_inj, UInt8.toNat_zero]
      omega
    simp only [Chip.byteFlags, flagOf, hzero]
  | s =>
    have hsign : (128 ≤ v.toNat) ↔ ((0x80 : Int) ≤ v.toNat) := by omega
    simp only [Chip.byteFlags, flagOf, hsign]
  | p =>
    have hmod : ((v.toNat : Int) % 65536).toNat = v.toNat := by omega
    simp only [Chip.byteFlags, flagOf, parity_eq, hmod, ones_of_byte hv]
  | cy => simp only [Chip.byteFlags, flagOf, toInt_emod]
  | ac => simp only [Chip.byteFlags, flagOf, toInt_emod]

end Alu

end Emu8080
