/-
# Emu8080.Text.Blank -- white space

A line is trimmed of every white space character there is: the ASCII controls
from tab to return, the four information separators, the space, and the spaces
and line breaks of Unicode.  A numeral is trimmed of less: the separators are not
blank there.
-/
import Emu8080.Text.Ranges

namespace Emu8080.Text

set_option autoImplicit false

/-- White space outside ASCII. -/
def wideBlankRanges : List (Nat × Nat) := [
  (0x85, 0x85), (0xA0, 0xA0), (0x1680, 0x1680), (0x2000, 0x200A),
  (0x2028, 0x2029), (0x202F, 0x202F), (0x205F, 0x205F), (0x3000, 0x3000)]

/-- Tab, line feed, vertical tab, form feed, return and space. -/
def isAsciiBlank (c : Char) : Bool := c = ' ' || (9 ≤ c.toNat && c.toNat ≤ 13)

/-- Blank at either end of a line. -/
def isBlank (c : Char) : Bool :=
  isAsciiBlank c || (0x1C ≤ c.toNat && c.toNat ≤ 0x1F) || inRanges wideBlankRanges c.toNat

/-- Blank at either end of a numeral. -/
def isNumeralBlank (c : Char) : Bool :=
  isAsciiBlank c || inRanges wideBlankRanges c.toNat

/-- Drop the characters of a class from both ends. -/
def trimBy (blank : Char → Bool) (chars : List Char) : List Char :=
  ((chars.dropWhile blank).reverse.dropWhile blank).reverse

/-- Drop white space from both ends. -/
def trim (chars : List Char) : List Char := trimBy isBlank chars

theorem isBlank_of_isWhitespace {c : Char} (h : c.isWhitespace = true) : isBlank c = true := by
  simp only [Char.isWhitespace, Bool.or_eq_true, decide_eq_true_eq] at h
  rcases h with ((rfl | rfl) | rfl) | rfl <;> decide

end Emu8080.Text
