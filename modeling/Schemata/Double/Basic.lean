/-!
# Binary64 numbers

A number is NaN, a signed infinity, or a sign, a significand and a power of two.
All arithmetic goes through exact natural numbers: `ofRatio` rounds a quotient to
the nearest representable number, a tie going to the even significand.
-/
namespace Schemata

/-- `finite s m e` stands for `± m · 2 ^ e`; zero is written with exponent 0. -/
inductive Double where
  | nan
  | infinite (negative : Bool)
  | finite (negative : Bool) (significand : Nat) (exponent : Int)
  deriving DecidableEq, Repr, Inhabited

namespace Double

def zero (negative : Bool) : Double := .finite negative 0 0

/-- The natural number nearest to `num / den`, a tie going to the even one. -/
def roundDiv (num den : Nat) : Nat :=
  let quotient := num / den
  let rest := num % den
  if 2 * rest < den then quotient
  else if den < 2 * rest then quotient + 1
  else quotient + quotient % 2

/-- `num / den` counted in units of `2 ^ unit`, again as a quotient. -/
def inUnits (num den : Nat) (unit : Int) : Nat × Nat :=
  if 0 ≤ unit then (num, den * Nat.pow 2 unit.toNat) else (num * Nat.pow 2 (-unit).toNat, den)

/-- The least exponent of a binary64 number. -/
def minExponent : Int := -1074

/-- The greatest exponent of a binary64 number with a full significand. -/
def maxExponent : Int := 971

/-- The unit in which `num / den` has a significand of 53 bits, if it is not too small. -/
def unitOf (num den : Nat) : Int :=
  let guess : Int := (Nat.log2 num : Int) - Nat.log2 den - 53
  let scaled := inUnits num den guess
  max (if scaled.1 / scaled.2 < Nat.pow 2 53 then guess else guess + 1) minExponent

/-- The number nearest to `± num / den`. -/
def ofRatio (negative : Bool) (num den : Nat) : Double :=
  if num = 0 then zero negative
  else
    let unit := unitOf num den
    let scaled := inUnits num den unit
    let rounded := roundDiv scaled.1 scaled.2
    let significand := if rounded = Nat.pow 2 53 then Nat.pow 2 52 else rounded
    let exponent := if rounded = Nat.pow 2 53 then unit + 1 else unit
    if rounded = 0 then zero negative
    else if maxExponent < exponent then .infinite negative
    else .finite negative significand exponent

def ofNat (n : Nat) : Double := ofRatio false n 1

def ofInt (i : Int) : Double := ofRatio (decide (i < 0)) i.natAbs 1

/-- Ten to the power `e`, as a quotient. -/
def tenPower (e : Int) : Nat × Nat :=
  if 0 ≤ e then (Nat.pow 10 e.toNat, 1) else (1, Nat.pow 10 (-e).toNat)

/-- The number nearest to `± digits · 10 ^ exponent`.  Far outside the range of binary64
the power of ten is not computed. -/
def ofDecimal (negative : Bool) (digits : Nat) (exponent : Int) : Double :=
  if digits = 0 then zero negative
  else if 400 < exponent then .infinite negative
  else if exponent < -(400 + (Nat.log2 digits : Int)) then zero negative
  else
    let power := tenPower exponent
    ofRatio negative (digits * power.1) power.2

/-- `m · 2 ^ e` as a quotient. -/
def magnitude (significand : Nat) (exponent : Int) : Nat × Nat :=
  if 0 ≤ exponent then (significand * Nat.pow 2 exponent.toNat, 1)
  else (significand, Nat.pow 2 (-exponent).toNat)

def mul : Double → Double → Double
  | .finite s m e, .finite s' m' e' =>
    let value := magnitude (m * m') (e + e')
    ofRatio (s != s') value.1 value.2
  | .infinite s, .infinite s' => .infinite (s != s')
  | .infinite s, .finite s' m _ => if m = 0 then .nan else .infinite (s != s')
  | .finite s m _, .infinite s' => if m = 0 then .nan else .infinite (s != s')
  | _, _ => .nan

def div : Double → Double → Double
  | .finite s m e, .finite s' m' e' =>
    if m' = 0 then (if m = 0 then .nan else .infinite (s != s'))
    else
      let value := magnitude 1 (e - e')
      ofRatio (s != s') (m * value.1) (m' * value.2)
  | .infinite s, .finite s' _ _ => .infinite (s != s')
  | .finite s _ _, .infinite s' => zero (s != s')
  | _, _ => .nan

instance : Mul Double := ⟨mul⟩
instance : Div Double := ⟨div⟩

/-- `± m · 2 ^ e` counted in units of `2 ^ unit`, for a unit that is at most `e`. -/
def count (negative : Bool) (significand : Nat) (exponent unit : Int) : Int :=
  let n : Int := (significand * Nat.pow 2 (exponent - unit).toNat : Nat)
  if negative then -n else n

/-- Numeric equality: NaN equals nothing, and the two zeros are equal. -/
def eqv : Double → Double → Bool
  | .finite s m e, .finite s' m' e' =>
    let unit := min e e'
    count s m e unit == count s' m' e' unit
  | .infinite s, .infinite s' => s == s'
  | _, _ => false

def lt : Double → Double → Bool
  | .finite s m e, .finite s' m' e' =>
    let unit := min e e'
    count s m e unit < count s' m' e' unit
  | .infinite s, .infinite s' => s && !s'
  | .infinite s, .finite _ _ _ => s
  | .finite _ _ _, .infinite s => !s
  | _, _ => false

def isFinite : Double → Bool
  | .finite _ _ _ => true
  | _ => false

def abs : Double → Double
  | .nan => .nan
  | .infinite _ => .infinite false
  | .finite _ m e => .finite false m e

/-- The integer that the number equals, if it equals one. -/
def toInt? : Double → Option Int
  | .finite s m e =>
    let value := magnitude m e
    if value.1 % value.2 = 0 then
      let n : Int := ((value.1 / value.2 : Nat) : Int)
      some (if s then -n else n)
    else none
  | _ => none

@[simp] theorem toInt?_zero (s : Bool) : (zero s).toInt? = some 0 := by
  cases s <;> rfl

@[simp] theorem eqv_nan (x : Double) : eqv .nan x = false := by
  cases x <;> rfl

theorem eqv_refl_of_isFinite (x : Double) (h : x.isFinite = true) : eqv x x = true := by
  cases x <;> simp_all [isFinite, eqv]

end Double

end Schemata
