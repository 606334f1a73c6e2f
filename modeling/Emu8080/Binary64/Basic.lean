/-
# Emu8080.Binary64.Basic -- IEEE double precision, held as its bits

Configuration documents and host values may carry a fraction.  Such a number is
kept as the 64 bits of its IEEE form and decoded with natural-number arithmetic
only, so two of them can be told apart, compared with an integer exactly and
written out without ever going through machine floating point.

A finite number is `± mantissa · 2 ^ exponent`, the exponent never below -1074.
`ofRatio` is the way in: the nearest double of a quotient, a half going to the
even mantissa.
-/
namespace Emu8080

set_option autoImplicit false

/-- A double-precision number by its bit pattern. -/
structure Binary64 where
  bits : UInt64
deriving DecidableEq, Inhabited

namespace Binary64

/-- The exponent of the least significant bit of every subnormal number. -/
def minExponent : Int := -1074

/-- The bits of positive infinity, the least pattern that is not finite. -/
def infinityBits : Nat := 0x7FF * Nat.pow 2 52

/-- Whether the sign bit is set, also for a zero. -/
def isNegative (x : Binary64) : Bool := Nat.pow 2 63 ≤ x.bits.toNat

/-- The pattern without its sign. -/
def magnitudeBits (x : Binary64) : Nat := x.bits.toNat % Nat.pow 2 63

def isFinite (x : Binary64) : Bool := x.magnitudeBits < infinityBits

def isNaN (x : Binary64) : Bool := infinityBits < x.magnitudeBits

/-- The integer mantissa; a normal number has its leading one restored. -/
def mantissa (x : Binary64) : Nat :=
  let fraction := x.magnitudeBits % Nat.pow 2 52
  if x.magnitudeBits / Nat.pow 2 52 = 0 then fraction else fraction + Nat.pow 2 52

/-- The power of two that scales the mantissa. -/
def exponent (x : Binary64) : Int :=
  minExponent + ((x.magnitudeBits / Nat.pow 2 52 - 1 : Nat) : Int)

/-- Zero of either sign. -/
def isZero (x : Binary64) : Bool := x.magnitudeBits = 0

/-- Attach a sign to a pattern without one; anything past the finite range is infinite. -/
def ofMagnitudeBits (negative : Bool) (bits : Nat) : Binary64 :=
  let bounded := min bits infinityBits
  ⟨UInt64.ofNat (if negative then bounded + Nat.pow 2 63 else bounded)⟩

def infinity (negative : Bool) : Binary64 := ofMagnitudeBits negative infinityBits

def nan : Binary64 := ⟨0x7FF8000000000000⟩

/-- Divide and round to the nearest integer, a half to the even one. -/
def roundHalfEven (numerator denominator : Nat) : Nat :=
  let quotient := numerator / denominator
  let remainder := numerator % denominator
  if 2 * remainder < denominator then quotient
  else if denominator < 2 * remainder then quotient + 1
  else quotient + quotient % 2

/-- Scale a quotient by a power of two, as a quotient again. -/
def scaleRatio (numerator denominator : Nat) (power : Int) : Nat × Nat :=
  match power with
  | .ofNat k => (numerator * Nat.pow 2 k, denominator)
  | .negSucc k => (numerator, denominator * Nat.pow 2 (k + 1))

/-- The exponent that leaves `numerator / denominator` with 53 bits, no less than the
least exponent there is. -/
def exponentOfRatio (numerator denominator : Nat) : Int :=
  let guess : Int := (numerator.log2 : Int) - (denominator.log2 : Int) - 52
  let scaled := scaleRatio numerator denominator (-guess)
  let fitted := if scaled.1 < Nat.pow 2 52 * scaled.2 then guess - 1 else guess
  max fitted minExponent

/-- The double nearest to `± numerator / denominator`.  The rounded mantissa is added
to the shifted exponent, so that a carry out of the mantissa moves into the exponent. -/
def ofRatio (negative : Bool) (numerator denominator : Nat) : Binary64 :=
  if numerator = 0 then ofMagnitudeBits negative 0
  else
    let e := exponentOfRatio numerator denominator
    let scaled := scaleRatio numerator denominator (-e)
    let rounded := roundHalfEven scaled.1 scaled.2
    ofMagnitudeBits negative ((e - minExponent).toNat * Nat.pow 2 52 + rounded)

/-- The power of ten from which on every nonzero number is infinite. -/
def decimalOverflow : Int := 310

/-- The power of ten below which, counted from the leading digit, every number is zero. -/
def decimalUnderflow : Int := -330

/-- The double nearest to `± digits · 10 ^ power`.  Powers far outside the range are decided
without being raised. -/
def ofDecimal (negative : Bool) (digits : Nat) (power : Int) : Binary64 :=
  if digits = 0 then ofMagnitudeBits negative 0
  else if decimalOverflow ≤ power then infinity negative
  else if power + (digits.log2 / 3 + 1 : Nat) < decimalUnderflow then ofMagnitudeBits negative 0
  else
    match power with
    | .ofNat k => ofRatio negative (digits * Nat.pow 10 k) 1
    | .negSucc k => ofRatio negative digits (Nat.pow 10 (k + 1))

/-- The exact value as a signed quotient, `none` for infinities and NaN. -/
def toRatio? (x : Binary64) : Option (Int × Nat) :=
  if x.isFinite then
    let scaled := scaleRatio x.mantissa 1 x.exponent
    some (if x.isNegative then -(scaled.1 : Int) else scaled.1, scaled.2)
  else none

/-- The least integer that is not below a finite number. -/
def ceiling? (x : Binary64) : Option Int :=
  x.toRatio?.map fun (numerator, denominator) => -(-numerator / denominator)

/-- The double nearest to a natural number; past the finite range it is infinite. -/
def ofNat (n : Nat) : Binary64 := ofRatio false n 1

/-- Combine two numbers as quotients; of what is not finite the outcome is infinite. -/
def combine (op : Nat × Nat → Nat × Nat → Nat × Nat) (x y : Binary64) : Binary64 :=
  match x.toRatio?, y.toRatio? with
  | some (a, b), some (c, d) =>
      let (numerator, denominator) := op (a.natAbs, b) (c.natAbs, d)
      ofRatio false numerator denominator
  | _, _ => infinity false

/-- The double nearest to the sum of two numbers that are neither negative nor NaN. -/
def addMagnitudes : Binary64 → Binary64 → Binary64 :=
  combine fun (a, b) (c, d) => (a * d + c * b, b * d)

/-- The double nearest to the product of two numbers that are neither negative nor NaN, and
of which a zero meets no infinity. -/
def mulMagnitudes : Binary64 → Binary64 → Binary64 :=
  combine fun (a, b) (c, d) => (a * c, b * d)

/-- Whether a number is no less than the integer `bound`. -/
def atLeast (x : Binary64) (bound : Int) : Bool :=
  match x.toRatio? with
  | some (numerator, denominator) => bound * denominator ≤ numerator
  | none => !x.isNaN && !x.isNegative

/-- Equality of numbers: the zeros agree and a NaN agrees with nothing. -/
def agrees (x y : Binary64) : Bool :=
  !x.isNaN && !y.isNaN && (x.bits == y.bits || (x.isZero && y.isZero))

/-- Whether the number is exactly the integer `n`. -/
def agreesInt (x : Binary64) (n : Int) : Bool :=
  match x.toRatio? with
  | some (numerator, denominator) => numerator == n * denominator
  | none => false

/-- Agreement of numbers does not depend on the order. -/
theorem agrees_comm (x y : Binary64) : x.agrees y = y.agrees x := by
  unfold agrees
  rw [Bool.and_comm (!x.isNaN), Bool.and_comm x.isZero]
  congr 2
  exact Bool.beq_comm

end Binary64

end Emu8080
