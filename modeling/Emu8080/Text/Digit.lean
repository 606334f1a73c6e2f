/-
# Emu8080.Text.Digit -- the value of a digit

A decimal digit may come from any script that has ten of them in a row; letters
count as digits from ten on, in either case, only within ASCII.
-/
namespace Emu8080.Text

set_option autoImplicit false

/-- The zeros of the scripts whose ten digits follow one another (Unicode 14). -/
def digitZeros : List Nat := [
  0x660, 0x6F0, 0x7C0, 0x966, 0x9E6, 0xA66, 0xAE6, 0xB66,
  0xBE6, 0xC66, 0xCE6, 0xD66, 0xDE6, 0xE50, 0xED0, 0xF20,
  0x1040, 0x1090, 0x17E0, 0x1810, 0x1946, 0x19D0, 0x1A80, 0x1A90,
  0x1B50, 0x1BB0, 0x1C40, 0x1C50, 0xA620, 0xA8D0, 0xA900, 0xA9D0,
  0xA9F0, 0xAA50, 0xABF0, 0xFF10, 0x104A0, 0x10D30, 0x11066, 0x110F0,
  0x11136, 0x111D0, 0x112F0, 0x11450, 0x114D0, 0x11650, 0x116C0, 0x11730,
  0x118E0, 0x11950, 0x11C50, 0x11D50, 0x11DA0, 0x16A60, 0x16AC0, 0x16B50,
  0x1D7CE, 0x1D7D8, 0x1D7E2, 0x1D7EC, 0x1D7F6, 0x1E140, 0x1E2F0, 0x1E950,
  0x1FBF0]

/-- The value of a decimal digit of any script. -/
def decimalDigit? (c : Char) : Option Nat :=
  if '0' ≤ c ∧ c ≤ '9' then some (c.toNat - '0'.toNat)
  else if c.toNat < 0x80 then none
  else (digitZeros.find? fun first => first ≤ c.toNat && c.toNat < first + 10).map (c.toNat - ·)

/-- The value of a digit in any base up to thirty-six: a decimal digit or an ASCII letter. -/
def digit? (c : Char) : Option Nat :=
  if 'a' ≤ c ∧ c ≤ 'z' then some (c.toNat - 'a'.toNat + 10)
  else if 'A' ≤ c ∧ c ≤ 'Z' then some (c.toNat - 'A'.toNat + 10)
  else decimalDigit? c

/-- A digit of the given base. -/
def digitBelow? (base : Nat) (c : Char) : Option Nat := (digit? c).filter (· < base)

/-- A hexadecimal digit of ASCII. -/
def hexDigit? (c : Char) : Option Nat := if c.toNat < 0x80 then digitBelow? 16 c else none

theorem digitBelow?_lt {base : Nat} {c : Char} {n : Nat} (h : digitBelow? base c = some n) :
    n < base := by
  unfold digitBelow? at h
  rw [Option.filter_eq_some_iff] at h
  simpa using h.2

theorem ne_low_line {base d : Nat} {c : Char} (h : digitBelow? base c = some d) : c ≠ '_' := by
  rintro rfl
  have hnone : digit? '_' = none := by decide +kernel
  rw [digitBelow?, hnone] at h
  exact nomatch h

end Emu8080.Text
