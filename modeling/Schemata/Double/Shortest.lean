import Schemata.Double.Basic

/-!
# Shortest decimal digits

The reals that round to a binary64 number form an interval around it, whose ends belong
to it when the significand is even.  `shortest` takes the fewest decimal digits that lie
in the interval, and of those the nearest to the number.
-/
namespace Schemata

namespace Double

/-- A quotient of natural numbers, compared by cross multiplication. -/
abbrev Quotient := Nat × Nat

namespace Quotient

def le (a b : Double.Quotient) : Bool := a.1 * b.2 ≤ b.1 * a.2

def lt (a b : Double.Quotient) : Bool := a.1 * b.2 < b.1 * a.2

end Quotient

/-- The interval of reals that round to `m · 2 ^ e`, and whether its ends belong to it. -/
structure Rounding where
  low : Double.Quotient
  value : Double.Quotient
  high : Double.Quotient
  closed : Bool

/-- Below a power of two the neighbour is at half the distance. -/
def Rounding.around (significand : Nat) (exponent : Int) : Rounding :=
  let below := if significand = Nat.pow 2 52 ∧ minExponent < exponent then 1 else 2
  ⟨magnitude (4 * significand - below) (exponent - 2),
    magnitude (4 * significand) (exponent - 2),
    magnitude (4 * significand + 2) (exponent - 2),
    significand % 2 = 0⟩

def Rounding.contains (r : Rounding) (x : Double.Quotient) : Bool :=
  if r.closed then r.low.le x && x.le r.high else r.low.lt x && x.lt r.high

/-- The greatest `p` with `10 ^ p ≤ num / den`, for a positive quotient. -/
def decade (x : Double.Quotient) : Int :=
  let guess : Int := ((Nat.log2 x.1 : Int) - Nat.log2 x.2) * 30103 / 100000
  let reached (p : Int) : Bool := Quotient.le (tenPower p) x
  if reached (guess + 1) then guess + 1
  else if reached guess then guess
  else if reached (guess - 1) then guess - 1
  else guess - 2

/-- `digits · 10 ^ exponent` as a quotient. -/
def decimal (digits : Nat) (exponent : Int) : Double.Quotient :=
  let power := tenPower exponent
  (digits * power.1, power.2)

/-- The multiple of `10 ^ exponent` nearest to the value, if one rounds to it; of two at
the same distance the even one. -/
def Rounding.onGrid? (r : Rounding) (exponent : Int) : Option Nat :=
  let power := tenPower exponent
  let num := r.value.1 * power.2
  let den := r.value.2 * power.1
  let down := num / den
  let nearest := roundDiv num den
  let other := if nearest = down then down + 1 else down
  if r.contains (decimal nearest exponent) then some nearest
  else if r.contains (decimal other exponent) then some other
  else none

/-- The first of the grids with 1, 2, … digits that has a point in the interval; at most
`fuel` further grids are tried. -/
def Rounding.firstGrid (r : Rounding) (fuel : Nat) (exponent : Int) : Nat × Int :=
  match r.onGrid? exponent, fuel with
  | some digits, _ => (digits, exponent)
  | none, fuel + 1 => r.firstGrid fuel (exponent - 1)
  | none, 0 => (0, exponent)

/-- The digits and their power of ten.  Seventeen digits always suffice; the grid of the
decade itself can be hit at its end, at ten, whose zero belongs to the power. -/
def shortest (significand : Nat) (exponent : Int) : Nat × Int :=
  let r := Rounding.around significand exponent
  let found := r.firstGrid 17 (decade r.value)
  if found.1 % 10 = 0 then (found.1 / 10, found.2 + 1) else found

end Double

end Schemata
