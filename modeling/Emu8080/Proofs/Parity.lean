/-
# Emu8080.Proofs.Parity -- folding counts the bits

Folding a number onto itself adds up pairs of its bits without carry.  Four
folds bring the sixteen low bits together in the lowest one, which is clear
exactly when the number of bits set among them is even.
-/
import Emu8080.Alu.Condition

namespace Emu8080.Alu

set_option autoImplicit false

/-- The number of bits set among the lowest `width` ones. -/
def ones (width n : Nat) : Nat := (List.range width).countP fun i => n.testBit i

/-- A fold puts the bit `half` places up onto each bit. -/
theorem testBit_foldBits (half n i : Nat) :
    (foldBits half n).testBit i = (n.testBit i ^^ n.testBit (half + i)) := by
  simp only [foldBits, Nat.testBit_xor, Nat.testBit_shiftRight]

/-- A count is odd when its members come out true, added up without carry. -/
theorem countP_odd (p : Nat → Bool) (items : List Nat) :
    (items.countP p % 2 == 1) = items.foldr (fun i odd => p i ^^ odd) false := by
  induction items with
  | nil => rfl
  | cons i rest ih =>
    rw [List.foldr_cons, ← ih, List.countP_cons]
    rcases Nat.mod_two_eq_zero_or_one (rest.countP p) with h | h <;>
      cases p i <;> simp [h, Nat.add_mod]

/-- The order in which the four folds take the bits. -/
def foldOrder : List Nat := [0, 8, 4, 12, 2, 10, 6, 14, 1, 9, 5, 13, 3, 11, 7, 15]

theorem foldOrder_perm : foldOrder.Perm (List.range 16) := by decide

/-- Parity is set when the number of bits set among the low sixteen is even. -/
theorem parity_eq (value : Int) :
    parity value = (ones 16 (value % 65536).toNat % 2 == 0) := by
  have hlow : ∀ n : Nat, (n % 2 == 0) = !n.testBit 0 := by
    intro n
    rcases Nat.mod_two_eq_zero_or_one n with h | h <;> simp [h]
  have heven : ∀ n : Nat, (n % 2 == 0) = !(n % 2 == 1) := by
    intro n
    rcases Nat.mod_two_eq_zero_or_one n with h | h <;> simp [h]
  rw [ones, ← foldOrder_perm.countP_eq, heven, countP_odd, parity, hlow]
  simp only [testBit_foldBits, foldOrder, List.foldr_cons, List.foldr_nil, Nat.add_zero,
    Nat.reduceAdd, Bool.xor_false, Bool.xor_assoc]

/-- Above eight bits a byte has none. -/
theorem ones_of_byte {n : Nat} (h : n < 256) : ones 16 n = ones 8 n := by
  have hhigh : ∀ i, n.testBit (8 + i) = false := by
    intro i
    have hpow : 2 ^ 8 ≤ 2 ^ (8 + i) := Nat.pow_le_pow_right (by decide) (Nat.le_add_right 8 i)
    exact Nat.testBit_lt_two_pow (Nat.lt_of_lt_of_le h hpow)
  have hrange : List.range 16 = List.range 8 ++ (List.range 8).map (8 + ·) := rfl
  rw [ones, hrange, List.countP_append, List.countP_map]
  simp [Function.comp_def, hhigh, ones]

end Emu8080.Alu
