/-
# Emu8080.Alu.Rotate -- rotations of the accumulator

Each rotation gives the new accumulator and the new carry.  The accumulator is
taken as an integer of any size and sign: the left rotations reduce their result
to a byte, the right ones move the bits down and add bit 7 where it is missing,
so a byte stays a byte and a wider number keeps its upper bits.
-/
namespace Emu8080.Alu

set_option autoImplicit false

/-- Bit `i` of an integer in two's complement. -/
def bitAt (i : Nat) (n : Int) : Int := n / (Nat.pow 2 i : Nat) % 2

/-- Put `bit` into position 7, leaving it set where it already is. -/
def orBit7 (n bit : Int) : Int := if bitAt 7 n = 0 then n + 128 * bit else n

/-- Rotate left: bit 7 goes to bit 0 and to the carry. -/
def rlc (a : Int) : Int × Int := ((2 * a + bitAt 7 a) % 256, bitAt 7 a)

/-- Rotate right: bit 0 goes to bit 7 and to the carry. -/
def rrc (a : Int) : Int × Int := (orBit7 (a / 2) (bitAt 0 a), bitAt 0 a)

/-- Rotate left through the carry, which enters at bit 0. -/
def ral (a carry : Int) : Int × Int := ((2 * a + carry % 2) % 256, bitAt 7 a)

/-- Rotate right through the carry, which enters at bit 7. -/
def rar (a carry : Int) : Int × Int := (orBit7 (a / 2) (carry % 2), bitAt 0 a)

end Emu8080.Alu
