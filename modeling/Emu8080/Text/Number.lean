/-
# Emu8080.Text.Number -- integers as text

Decimal text, two and four digit upper case bytes and words, and addresses in
lower case with a `0x` mark, padded with zeros to six characters, a sign being
one of them.
-/
import Emu8080.Text.Basic

namespace Emu8080.Text

set_option autoImplicit false

/-- The most digits an integer may have to be read or written in decimal. -/
def maxDecimalDigits : Nat := 4300

/-- The least natural number that has too many digits. -/
def decimalBound : Nat := Nat.pow 10 maxDecimalDigits

def decimal (n : Nat) : String := String.ofList (Nat.toDigits 10 n)

/-- Decimal text of an integer, the sign only when negative. -/
def decimalInt (n : Int) : String :=
  if n < 0 then "-" ++ decimal n.natAbs else decimal n.natAbs

/-- Zeros in front, up to a width. -/
def padZeros (width : Nat) (chars : List Char) : List Char :=
  List.replicate (width - chars.length) '0' ++ chars

/-- Hexadecimal digits in lower case, as many as the number needs. -/
def hexLower (n : Nat) : List Char := Nat.toDigits 16 n

/-- Hexadecimal digits in upper case. -/
def hexUpper (n : Nat) : List Char := (hexLower n).map Char.toUpper

/-- At least `width` characters of upper case hexadecimal, a sign being one of them. -/
def hexUpperInt (width : Nat) (n : Int) : String :=
  if n < 0 then String.ofList ('-' :: padZeros (width - 1) (hexUpper n.natAbs))
  else String.ofList (padZeros width (hexUpper n.natAbs))

/-- A byte or word in upper case hexadecimal of at least `width` digits. -/
def hexField (width n : Nat) : String := String.ofList (padZeros width (hexUpper n))

/-- An address: `0x` and hexadecimal digits in lower case, six characters at least. -/
def address (n : Int) : String :=
  if n < 0 then String.ofList ('-' :: '0' :: 'x' :: padZeros 3 (hexLower n.natAbs))
  else String.ofList ('0' :: 'x' :: padZeros 4 (hexLower n.natAbs))

theorem length_padZeros (width : Nat) (chars : List Char) :
    (padZeros width chars).length = max width chars.length := by
  simp [padZeros]
  omega

/-- The sign and the mark count among the places. -/
example : address (-1) = "-0x001" := by decide +kernel

end Emu8080.Text
