/-
# Emu8080.Binary64.Shortest -- the fewest decimal digits that read back

A finite double owns the interval of reals that round to it.  `shortest` looks
for the decimal with the fewest digits inside that interval: for one, two, …
seventeen digits it tries the two points of that decimal grid on either side of
the exact value, and keeps the nearer of those that lie inside.  If any point of
a grid lies in the interval, so does one of these two, because the exact value
does.

All quantities are natural numbers over one common scale: four times the
mantissa, so that half the gap to a neighbour is an integer.
-/
import Emu8080.Binary64.Basic

namespace Emu8080.Binary64

set_option autoImplicit false

/-- A decimal `digits · 10 ^ power`. -/
structure Decimal where
  digits : Nat
  power : Int
deriving DecidableEq, Repr

/-- The reals that round to a positive double, over the scale `2 ^ exponent`.  The ends
belong to it when the mantissa is even. -/
structure Interval where
  low : Nat
  value : Nat
  high : Nat
  exponent : Int
  closed : Bool

/-- The interval of a finite nonzero number.  Below a power of two the gap is halved. -/
def interval (x : Binary64) : Interval :=
  let m := x.mantissa
  let narrow := m = Nat.pow 2 52 ∧ minExponent < x.exponent
  { low := 4 * m - (if narrow then 1 else 2)
    value := 4 * m
    high := 4 * m + 2
    exponent := x.exponent - 2
    closed := m % 2 = 0 }

/-- The interval over the grid of step `10 ^ power`: its three points as numerators over
one denominator, a whole number of steps being a multiple of the denominator. -/
structure Gridded where
  low : Nat
  value : Nat
  high : Nat
  step : Nat
  closed : Bool

def Interval.onGrid (i : Interval) (power : Int) : Gridded :=
  let up := Nat.pow 2 i.exponent.toNat * Nat.pow 10 (-power).toNat
  let down := Nat.pow 2 (-i.exponent).toNat * Nat.pow 10 power.toNat
  { low := i.low * up, value := i.value * up, high := i.high * up
    step := down, closed := i.closed }

/-- Whether `n` steps of the grid fall inside. -/
def Gridded.holds (g : Gridded) (n : Nat) : Bool :=
  let point := n * g.step
  if g.closed then g.low ≤ point && point ≤ g.high
  else g.low < point && point < g.high

/-- The neighbour of the value on the grid that lies inside, the nearer if both do. -/
def Gridded.nearest? (g : Gridded) : Option Nat :=
  let below := g.value / g.step
  let above := below + 1
  match g.holds below, g.holds above with
  | false, false => none
  | true, false => some below
  | false, true => some above
  | true, true =>
      let toBelow := g.value - below * g.step
      let toAbove := above * g.step - g.value
      if toBelow < toAbove then some below
      else if toAbove < toBelow then some above
      else some (below + below % 2)

/-- The number of decimal digits of a natural number. -/
def digitCount (n : Nat) : Nat := (Nat.toDigits 10 n).length

/-- How many digits stand before the point: the least `p` with the value below `10 ^ p`. -/
def Interval.magnitude (i : Interval) : Int :=
  let whole := i.value * Nat.pow 2 i.exponent.toNat / Nat.pow 2 (-i.exponent).toNat
  if whole ≠ 0 then digitCount whole
  else
    -- below one: count how often the value can be multiplied by ten before it reaches one
    let denominator := Nat.pow 2 (-i.exponent).toNat
    let room := denominator / i.value
    let guess := digitCount room
    if i.value * Nat.pow 10 (guess - 1) < denominator then -((guess - 1 : Nat) : Int)
    else -((guess - 2 : Nat) : Int)

/-- Try the grids from coarse to fine. -/
def shortestFrom (i : Interval) (power : Int) : Nat → Decimal
  | 0 => ⟨(i.onGrid power).value / (i.onGrid power).step, power⟩
  | fuel + 1 =>
      match (i.onGrid power).nearest? with
      | some digits => ⟨digits, power⟩
      | none => shortestFrom i (power - 1) fuel

/-- Drop zeros at the end of the digits. -/
def Decimal.strip (d : Decimal) : Nat → Decimal
  | 0 => d
  | fuel + 1 =>
      if d.digits ≠ 0 ∧ d.digits % 10 = 0 then
        Decimal.strip ⟨d.digits / 10, d.power + 1⟩ fuel
      else d

/-- The decimal of fewest digits that reads back as the magnitude of `x`, a finite
nonzero number.  Seventeen digits always suffice. -/
def shortest (x : Binary64) : Decimal :=
  let i := x.interval
  (shortestFrom i (i.magnitude - 1) 17).strip 17

end Emu8080.Binary64
