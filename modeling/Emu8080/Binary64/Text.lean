/-
# Emu8080.Binary64.Text -- the written form of a double

`layout` says how the shortest digits are set: with a point while the leading
digit stands between the fourth place after it and the sixteenth before it, with
an exponent of at least two digits otherwise.  A whole number keeps one zero
after the point, so that it does not read as an integer.
-/
import Emu8080.Binary64.Shortest
import Emu8080.Text.Number

namespace Emu8080.Binary64

set_option autoImplicit false

/-- Where positional notation ends and how an exponent is set. -/
structure Layout where
  lowestPoint : Int
  highestPoint : Int
  exponentDigits : Nat
  infinity : String
  nan : String

/-- Points stand from three zeros after the point up to sixteen digits before it;
exponents have two digits at least. -/
def layout : Layout := ⟨-3, 16, 2, "inf", "nan"⟩

/-- Digits with a point after the first `point` of them, `point` zeros or less meaning
zeros in front. -/
def positional (digits : List Char) (point : Int) : String :=
  if point ≤ 0 then
    "0." ++ String.ofList (List.replicate (-point).toNat '0' ++ digits)
  else
    let whole := digits.take point.toNat
    let filled := whole ++ List.replicate (point.toNat - whole.length) '0'
    let fraction := digits.drop point.toNat
    String.ofList filled ++ "." ++ (if fraction.isEmpty then "0" else String.ofList fraction)

/-- One digit, the others after a point, and the exponent with its sign. -/
def scientific (layout : Layout) (digits : List Char) (point : Int) : String :=
  let lead := String.ofList (digits.take 1)
  let fraction := digits.drop 1
  let mantissa := if fraction.isEmpty then lead else lead ++ "." ++ String.ofList fraction
  let e := point - 1
  mantissa ++ "e" ++ (if e < 0 then "-" else "+")
    ++ String.ofList (Text.padZeros layout.exponentDigits (Nat.toDigits 10 e.natAbs))

/-- The text of the magnitude of a number. -/
def magnitudeText (layout : Layout) (x : Binary64) : String :=
  if x.isZero then "0.0"
  else if x.isFinite then
    let d := x.shortest
    let digits := Nat.toDigits 10 d.digits
    let point : Int := (digits.length : Int) + d.power
    if layout.lowestPoint ≤ point ∧ point ≤ layout.highestPoint then positional digits point
    else scientific layout digits point
  else layout.infinity

/-- The written form: shortest digits, a sign where the sign bit is set, NaN without one. -/
def text (x : Binary64) : String :=
  if x.isNaN then layout.nan
  else if x.isNegative then "-" ++ magnitudeText layout x
  else magnitudeText layout x

/-- Read `digits.fraction` with a power of ten: every character is a decimal digit. -/
def ofDigits (negative : Bool) (whole fraction : List Char) (power : Int) : Binary64 :=
  let digits := (whole ++ fraction).foldl (fun n c => 10 * n + (c.toNat - '0'.toNat)) 0
  ofDecimal negative digits (power - fraction.length)

end Emu8080.Binary64
