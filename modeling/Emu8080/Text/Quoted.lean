/-
# Emu8080.Text.Quoted -- a text in quotes

A text quoted in a message stands between apostrophes, or between quotation
marks when it holds an apostrophe and no quotation mark.  The quote itself and
the backslash are escaped, line feed, return and tab have names, and every other
character that is not printable is written by its number with two, four or eight
hexadecimal digits.  So is a lone surrogate: what stands between quotes is a
string.
-/
import Emu8080.Text.Basic
import Emu8080.Text.Printable

namespace Emu8080.Text

set_option autoImplicit false

/-- A hexadecimal digit in lower case. -/
def hexDigitLower (n : Nat) : Char := (Nat.digitChar (n % 16))

/-- The last `width` hexadecimal digits of a number. -/
def hexDigits : Nat → Nat → List Char
  | 0, _ => []
  | width + 1, n => hexDigits width (n / 16) ++ [hexDigitLower n]

/-- The quote that a text calls for. -/
def quoteFor (t : Text) : Char :=
  if t.points.contains (.char '\'') && !t.points.contains (.char '"') then '"' else '\''

/-- A number after the mark of its width. -/
def escapeNumber (n : Nat) : List Char :=
  if n < 0x100 then '\\' :: 'x' :: hexDigits 2 n
  else if n < 0x10000 then '\\' :: 'u' :: hexDigits 4 n
  else '\\' :: 'U' :: hexDigits 8 n

/-- One character as it stands between quotes. -/
def escapeChar (quote c : Char) : List Char :=
  if c = quote ∨ c = '\\' then ['\\', c]
  else if c = '\n' then ['\\', 'n']
  else if c = '\r' then ['\\', 'r']
  else if c = '\t' then ['\\', 't']
  else if isPrintable c then [c]
  else escapeNumber c.toNat

/-- One code point as it stands between quotes. -/
def escape (quote : Char) : CodePoint → List Char
  | .char c => escapeChar quote c
  | .surrogate s => escapeNumber (CodePoint.surrogate s).toNat

/-- A text between quotes. -/
def quoted (t : Text) : String :=
  let quote := quoteFor t
  String.ofList (quote :: t.points.flatMap (escape quote) ++ [quote])

end Emu8080.Text
