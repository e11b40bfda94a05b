import Mathlib.Algebra.Order.Ring.Int
import Schemata.Double.Basic

/-!
# Integral numbers

Two numbers that equal one integer are equal, however they are written; and an integer below
2 ^ 53 is its own nearest number.
-/
namespace Schemata

namespace Double

variable {negative : Bool} {significand : Nat} {exponent unit i : Int} {x y : Double}

/-- An integral magnitude, counted in a unit that may be more or less than one. -/
theorem magnitude_count
    (integral : (magnitude significand exponent).1 % (magnitude significand exponent).2 = 0)
    (le : unit ≤ exponent) :
    significand * 2 ^ (exponent - unit).toNat * 2 ^ unit.toNat =
      (magnitude significand exponent).1 / (magnitude significand exponent).2 *
        2 ^ (-unit).toNat := by
  unfold magnitude at integral ⊢
  split at integral
  · rename_i whole
    have shifts : (exponent - unit).toNat + unit.toNat = exponent.toNat + (-unit).toNat := by omega
    rw [if_pos whole, Nat.div_one, Nat.pow_eq, Nat.mul_assoc, Nat.mul_assoc, ← Nat.pow_add,
      ← Nat.pow_add, shifts]
  · rename_i fraction
    have below : unit.toNat = 0 := by omega
    have shifts : (-unit).toNat = (-exponent).toNat + (exponent - unit).toNat := by omega
    have whole := Nat.div_mul_cancel (Nat.dvd_of_mod_eq_zero integral)
    rw [Nat.pow_eq] at whole
    rw [if_neg fraction, below, Nat.pow_zero, Nat.mul_one, shifts, Nat.pow_add, ← Nat.mul_assoc,
      Nat.pow_eq, whole]

/-- An integer is counted in any unit. -/
theorem count_of_toInt? (h : (finite negative significand exponent).toInt? = some i)
    (le : unit ≤ exponent) :
    count negative significand exponent unit * 2 ^ unit.toNat = i * 2 ^ (-unit).toNat := by
  unfold toInt? at h
  dsimp only at h
  split at h
  · rename_i integral
    have counted := congrArg Int.ofNat (magnitude_count integral le)
    simp only [Int.ofNat_eq_natCast, Nat.cast_mul, Nat.cast_pow, Nat.cast_ofNat] at counted
    have value := Option.some.inj h
    rw [count, Nat.pow_eq, Nat.cast_mul, Nat.cast_pow, Nat.cast_ofNat, ← value]
    cases negative with
    | false => exact counted
    | true => rw [if_pos rfl, if_pos rfl, Int.neg_mul, Int.neg_mul, counted]
  · cases h

/-- Numbers that equal one integer are equal. -/
theorem eqv_of_toInt? (hx : x.toInt? = some i) (hy : y.toInt? = some i) : x.eqv y = true := by
  cases x with
  | nan => cases hx
  | infinite => cases hx
  | finite s m e =>
    cases y with
    | nan => cases hy
    | infinite => cases hy
    | finite s' m' e' =>
      have first := count_of_toInt? hx (min_le_left e e')
      have second := count_of_toInt? hy (min_le_right e e')
      have positive : (2 : Int) ^ (min e e').toNat ≠ 0 := pow_ne_zero _ two_ne_zero
      exact beq_iff_eq.mpr (mul_right_cancel₀ positive (first.trans second.symm))

theorem inUnits_one (n : Nat) (small : unit ≤ 0) :
    inUnits n 1 unit = (n * 2 ^ (-unit).toNat, 1) := by
  rw [inUnits]
  split
  · have one : unit = 0 := by omega
    simp [one]
  · rfl

theorem roundDiv_one (n : Nat) : roundDiv n 1 = n := by
  rw [roundDiv, Nat.div_one, Nat.mod_one]
  exact if_pos Nat.one_pos

/-- With 53 bits at most a number is counted in a unit that is not more than one. -/
theorem unitOf_one {n : Nat} (nonzero : n ≠ 0) (bounded : n < 2 ^ 53) :
    unitOf n 1 = -((52 - Nat.log2 n : Nat) : Int) := by
  have few : Nat.log2 n < 53 := (Nat.log2_lt nonzero).mpr bounded
  have one : Nat.log2 1 = 0 := by decide
  have guess : (Nat.log2 n : Int) - (0 : Nat) - 53 = -((53 - Nat.log2 n : Nat) : Int) := by omega
  have many : ¬ n * 2 ^ (53 - Nat.log2 n) < 2 ^ 53 := by
    have scaled := Nat.mul_le_mul_right (2 ^ (53 - Nat.log2 n)) (Nat.log2_self_le nonzero)
    rw [← Nat.pow_add, Nat.add_sub_cancel' (le_of_lt few)] at scaled
    exact not_lt_of_ge scaled
  rw [unitOf, one, guess, inUnits_one n (by omega), Int.neg_neg, Int.toNat_natCast]
  dsimp only
  rw [Nat.div_one, Nat.pow_eq, if_neg many, minExponent]
  omega

/-- An integer may be written with any number of zeros at its end. -/
theorem toInt?_shifted (negative : Bool) (n k : Nat) :
    (finite negative (n * 2 ^ k) (-(k : Int))).toInt? =
      some (if negative then -(n : Int) else n) := by
  have value : (magnitude (n * 2 ^ k) (-(k : Int))).1 % (magnitude (n * 2 ^ k) (-(k : Int))).2 = 0 ∧
      (magnitude (n * 2 ^ k) (-(k : Int))).1 / (magnitude (n * 2 ^ k) (-(k : Int))).2 = n := by
    have positive : 0 < 2 ^ k := Nat.two_pow_pos k
    unfold magnitude
    split
    · have none : k = 0 := by omega
      subst none
      exact ⟨Nat.mod_one _, by simp⟩
    · rw [Int.neg_neg, Int.toNat_natCast, Nat.pow_eq]
      exact ⟨Nat.mul_mod_left n _, Nat.mul_div_cancel n positive⟩
  rw [toInt?]
  dsimp only
  rw [if_pos value.1, value.2]

/-- An integer of 53 bits at most is represented as it is. -/
theorem toInt?_ofRatio {n : Nat} (negative : Bool) (bounded : n < 2 ^ 53) :
    (ofRatio negative n 1).toInt? = some (if negative then -(n : Int) else n) := by
  by_cases zero : n = 0
  · subst zero
    cases negative <;> rfl
  · have few : Nat.log2 n < 53 := (Nat.log2_lt zero).mpr bounded
    have positive : n * 2 ^ (52 - Nat.log2 n) ≠ 0 := by simp [zero]
    have fits : n * 2 ^ (52 - Nat.log2 n) < 2 ^ 53 := by
      have scaled := Nat.mul_lt_mul_of_pos_right (Nat.lt_log2_self (n := n))
        (Nat.two_pow_pos (52 - Nat.log2 n))
      rwa [← Nat.pow_add, show Nat.log2 n + 1 + (52 - Nat.log2 n) = 53 by omega] at scaled
    have least : ¬ maxExponent < -((52 - Nat.log2 n : Nat) : Int) := by
      rw [maxExponent]
      omega
    rw [ofRatio, if_neg zero]
    dsimp only
    rw [unitOf_one zero bounded, inUnits_one n (by omega), Int.neg_neg, Int.toNat_natCast,
      roundDiv_one, Nat.pow_eq, if_neg (ne_of_lt fits), if_neg positive, if_neg (ne_of_lt fits),
      if_neg least, toInt?_shifted]

theorem toInt?_ofInt (bounded : i.natAbs < 2 ^ 53) : (ofInt i).toInt? = some i := by
  rw [ofInt, toInt?_ofRatio _ bounded]
  by_cases negative : i < 0
  · rw [decide_eq_true negative, if_pos rfl]
    congr 1
    omega
  · rw [decide_eq_false negative, if_neg Bool.false_ne_true]
    congr 1
    omega

end Double

end Schemata
