/-
# Emu8080.Text.Numeral -- reading integers

A numeral is a sign and digits, with blanks allowed around it and single low
lines between digits.  Hexadecimal numerals may carry the mark `0x`, after which
one more low line is allowed.  Decimal numerals are bounded in length, so that
reading one stays cheap.
-/
import Emu8080.Text.Blank
import Emu8080.Text.Digit
import Emu8080.Text.Number

namespace Emu8080.Text

set_option autoImplicit false

/-- Continue a numeral after a digit: more digits, each with at most one low line in
front. -/
def digitsAfter? (base : Nat) (value : Nat) : List Char → Option Nat
  | [] => some value
  | '_' :: c :: rest => do digitsAfter? base (value * base + (← digitBelow? base c)) rest
  | c :: rest => do digitsAfter? base (value * base + (← digitBelow? base c)) rest

/-- The value of a run of digits with single low lines between them. -/
def digits? (base : Nat) : List Char → Option Nat
  | [] => none
  | c :: rest => do digitsAfter? base (← digitBelow? base c) rest

/-- Take a sign off the front. -/
def splitSign : List Char → Bool × List Char
  | '-' :: rest => (true, rest)
  | '+' :: rest => (false, rest)
  | chars => (false, chars)

def applySign (negative : Bool) (n : Nat) : Int := if negative then -(n : Int) else n

/-- Take the hexadecimal mark off the front, and one low line behind it.  The zero of the
mark may come from any script. -/
def dropHexMark : List Char → List Char
  | zero :: m :: rest =>
      if decimalDigit? zero = some 0 ∧ (m = 'x' ∨ m = 'X') then
        match rest with
        | '_' :: more => more
        | _ => rest
      else zero :: m :: rest
  | chars => chars

/-- How many characters of a numeral are digits and not low lines. -/
def digitLength (chars : List Char) : Nat := (chars.filter (· ≠ '_')).length

/-- Read a decimal integer. -/
def decimalInt? (chars : List Char) : Option Int :=
  let (negative, body) := splitSign (trimBy isNumeralBlank chars)
  if maxDecimalDigits < digitLength body then none
  else (digits? 10 body).map (applySign negative)

/-- Read a hexadecimal integer. -/
def hexInt? (chars : List Char) : Option Int :=
  let (negative, body) := splitSign (trimBy isNumeralBlank chars)
  (digits? 16 (dropHexMark body)).map (applySign negative)

/-- A digit is taken by itself. -/
theorem digitsAfter?_digit {base d : Nat} {c : Char} (hc : digitBelow? base c = some d)
    (value : Nat) (rest : List Char) :
    digitsAfter? base value (c :: rest) = digitsAfter? base (value * base + d) rest := by
  rw [digitsAfter?]
  · rw [hc]
    rfl
  · rintro e more rfl
    exact absurd rfl (ne_low_line hc)

/-- A single low line may follow the mark. -/
example : hexInt? "0x_1F".toList = some 31 := by decide +kernel

/-- Two low lines may not follow each other. -/
example : decimalInt? "1__0".toList = none := by decide +kernel

end Emu8080.Text
