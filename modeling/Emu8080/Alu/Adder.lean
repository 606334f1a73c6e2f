/-
# Emu8080.Alu.Adder -- the ripple-carry adder

Bytes and words are added one bit at a time, lowest first, each position handing
its carry to the next.  The auxiliary carry is the carry out of the four lowest
positions, taken as it passes and not derived from the result.

Subtraction is addition of the two's complement; a carry out then means that
nothing was borrowed.
-/
import Emu8080.Fault

namespace Emu8080.Alu

set_option autoImplicit false

/-- The two widths an addition can have. -/
inductive Width
  | byte
  | word
deriving DecidableEq, Repr

namespace Width

def bits : Width → Nat
  | .byte => 8
  | .word => 16

/-- One more than the greatest value of the width. -/
def bound (w : Width) : Nat := Nat.pow 2 w.bits

/-- The width that a number of bits is. -/
def ofDatum? (d : Datum) : Option Width :=
  if d.agrees (.int 8) then some .byte else if d.agrees (.int 16) then some .word else none

end Width

/-- The sum and the carry of two bits. -/
def halfAdd (a b : Bool) : Bool × Bool := (a ^^ b, a && b)

/-- The sum and the carry of three bits: two half additions, of which at most one carries. -/
def fullAdd (a b carry : Bool) : Bool × Bool :=
  let (partialSum, first) := halfAdd a b
  let (total, second) := halfAdd partialSum carry
  (total, first || second)

/-- Add bit by bit, lowest first: the sum bits and the carry out. -/
def ripple : List (Bool × Bool) → Bool → List Bool × Bool
  | [], carry => ([], carry)
  | (a, b) :: rest, carry =>
      let (bit, next) := fullAdd a b carry
      let (bits, out) := ripple rest next
      (bit :: bits, out)

/-- The `width` low bits of a number, lowest first. -/
def toBits : Nat → Nat → List Bool
  | 0, _ => []
  | width + 1, n => (n % 2 == 1) :: toBits width (n / 2)

/-- The number whose bits these are, lowest first. -/
def ofBits : List Bool → Nat
  | [] => 0
  | b :: rest => b.toNat + 2 * ofBits rest

/-- The low bits of an integer of any size and sign. -/
def reduce (w : Width) (n : Int) : Nat := (n % w.bound).toNat

/-- What an addition leaves: the result, the carry out of the highest bit, and the carry
from the low half of a byte into its high half. -/
structure Sum where
  value : Nat
  carry : Bool
  auxCarry : Bool
deriving DecidableEq, Repr

/-- The position that the auxiliary carry enters. -/
def auxCarryBit : Nat := 4

/-- Add two integers within a width, the lowest bit of `carryIn` being the first carry. -/
def add (w : Width) (a b : Int) (carryIn : Int) : Sum :=
  let pairs := (toBits w.bits (reduce w a)).zip (toBits w.bits (reduce w b))
  let first := carryIn % 2 == 1
  let (bits, carry) := ripple pairs first
  { value := ofBits bits, carry, auxCarry := (ripple (pairs.take auxCarryBit) first).2 }

/-- Add values of the host within a width given in bits.  Only eight and sixteen are widths,
and the positions are counted by an integer; the width is looked at before the summands. -/
def addBits (a b width carryIn : Datum) : Except Fault Sum :=
  if !width.canBeKey then .error .wrongKind
  else
    match Width.ofDatum? width with
    | none => .error (.showing width (.adderWidth width))
    | some w => do
        let a ← a.whole
        let b ← b.whole
        let carryIn ← carryIn.whole
        let _ ← width.whole
        return add w a b carryIn

/-- A position adds up: sum bit and carry together hold the three bits. -/
theorem fullAdd_value (a b carry : Bool) :
    (fullAdd a b carry).1.toNat + 2 * (fullAdd a b carry).2.toNat
      = a.toNat + b.toNat + carry.toNat := by
  cases a <;> cases b <;> cases carry <;> rfl

theorem weight_succ (n : Nat) : Nat.pow 2 (n + 1) = Nat.pow 2 n * 2 := rfl

/-- The whole chain adds up: sum bits and carry out together hold both numbers. -/
theorem ripple_value (pairs : List (Bool × Bool)) (carry : Bool) :
    ofBits (ripple pairs carry).1 + Nat.pow 2 pairs.length * (ripple pairs carry).2.toNat
      = ofBits (pairs.map Prod.fst) + ofBits (pairs.map Prod.snd) + carry.toNat := by
  induction pairs generalizing carry with
  | nil => simp [ripple, ofBits]
  | cons head rest ih =>
    obtain ⟨a, b⟩ := head
    have hbit := fullAdd_value a b carry
    have hrest := ih (fullAdd a b carry).2
    simp only [ripple, ofBits, List.map_cons, List.length_cons, weight_succ]
    have hassoc : Nat.pow 2 rest.length * 2 * (ripple rest (fullAdd a b carry).2).2.toNat
        = 2 * (Nat.pow 2 rest.length * (ripple rest (fullAdd a b carry).2).2.toNat) := by
      rw [Nat.mul_comm (Nat.pow 2 rest.length) 2, Nat.mul_assoc]
    rw [hassoc]
    omega

theorem length_toBits (width n : Nat) : (toBits width n).length = width := by
  induction width generalizing n with
  | zero => rfl
  | succ width ih => simp [toBits, ih]

theorem ofBits_toBits (width n : Nat) : ofBits (toBits width n) = n % Nat.pow 2 width := by
  induction width generalizing n with
  | zero => simp [toBits, ofBits, Nat.mod_one]
  | succ width ih =>
    have hbit : (n % 2 == 1).toNat = n % 2 := by
      rcases Nat.mod_two_eq_zero_or_one n with h | h <;> simp [h]
    simp only [toBits, ofBits, ih, hbit]
    rw [weight_succ, Nat.mul_comm (Nat.pow 2 width) 2, Nat.mod_mul]

end Emu8080.Alu
