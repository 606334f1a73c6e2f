/-
# Emu8080.Text.Ranges -- a set of characters as a list of ranges

Character classes are tables of inclusive ranges of code points in ascending
order, so a search can stop at the first range that begins past the character.
-/
namespace Emu8080.Text

set_option autoImplicit false

/-- Whether a code point lies in one of the ranges, which ascend. -/
def inRanges : List (Nat × Nat) → Nat → Bool
  | [], _ => false
  | (low, high) :: rest, n => if n < low then false else n ≤ high || inRanges rest n

end Emu8080.Text
