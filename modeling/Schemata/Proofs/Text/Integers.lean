import Schemata.Proofs.Text.Blanks
import Schemata.Text.Integer

/-!
# Integers in decimal text

A text denotes an integer if it consists of one digit or more, perhaps with a minus in front.  A
signed reader gives back what a text denotes, if that is in its range, and so does an unsigned one
where there is no minus.  Every integer is denoted by the text that it is written as.
-/
namespace Schemata

namespace Text

variable {text digits : List Char} {i : Int} {c : Char}

/-- One decimal digit or more. -/
structure AreDigits (digits : List Char) : Prop where
  nonempty : digits ≠ []
  all : ∀ c ∈ digits, c.isDigit = true

/-- The text is an integer in decimal digits. -/
inductive Denotes : List Char → Int → Prop where
  | plain {digits : List Char} (are : AreDigits digits) :
      Denotes digits (Nat.ofDigitChars 10 digits 0)
  | minus {digits : List Char} (are : AreDigits digits) :
      Denotes ('-' :: digits) (-(Nat.ofDigitChars 10 digits 0 : Int))

theorem AreDigits.not_mem (are : AreDigits digits) (other : c.isDigit = false) : c ∉ digits := by
  intro mem
  rw [are.all c mem] at other
  cases other

theorem isBlank_of_isDigit (h : c.isDigit = true) : isBlank c = false := by
  simp [Char.isDigit, UInt32.le_iff_toNat_le] at h
  simp [isBlank]
  omega

theorem Denotes.no_blank (h : Denotes text i) : ∀ c ∈ text, isBlank c = false := by
  cases h with
  | plain are => exact fun c hc => isBlank_of_isDigit (are.all c hc)
  | minus are =>
    intro c hc
    rcases List.mem_cons.mp hc with rfl | hc
    · decide
    · exact isBlank_of_isDigit (are.all c hc)

/-- No text denotes two integers. -/
theorem Denotes.unique {j : Int} (h : Denotes text i) (h' : Denotes text j) : i = j := by
  cases h with
  | plain are =>
    cases h' with
    | plain => rfl
    | minus => exact absurd List.mem_cons_self (are.not_mem (by decide))
  | minus =>
    cases h' with
    | plain are => exact absurd List.mem_cons_self (are.not_mem (by decide))
    | minus => rfl

theorem not_denotes_minus : ¬ Denotes ['-'] i := by
  intro h
  cases h with
  | plain are => exact are.not_mem (by decide) List.mem_cons_self
  | minus are => exact are.nonempty rfl

/-! ### Reading -/

theorem digits?_of_areDigits (are : AreDigits digits) :
    digits? digits = some (Nat.ofDigitChars 10 digits 0) := by
  have nonempty : digits.isEmpty = false := List.isEmpty_eq_false_iff.mpr are.nonempty
  have all : digits.all Char.isDigit = true := List.all_eq_true.mpr are.all
  rw [digits?, nonempty, all]
  rfl

theorem splitSign_of_areDigits (are : AreDigits digits) :
    Double.splitSign digits = (false, digits) := by
  unfold Double.splitSign
  split
  · exact absurd List.mem_cons_self (are.not_mem (by decide))
  · exact absurd List.mem_cons_self (are.not_mem (by decide))
  · rfl

theorem signed?_of_denotes (bits : Nat) (h : Denotes text i) :
    signed? bits text = if inSignedRange bits i then some i else none := by
  cases h with
  | plain are =>
    rw [signed?, splitSign_of_areDigits are]
    simp [digits?_of_areDigits are, Option.filter]
  | minus are =>
    rw [signed?, Double.splitSign]
    simp [digits?_of_areDigits are, Option.filter]

theorem unsigned?_of_areDigits (bits : Nat) (are : AreDigits digits) :
    unsigned? bits digits = if Nat.ofDigitChars 10 digits 0 < Nat.pow 2 bits then
      some (Nat.ofDigitChars 10 digits 0) else none := by
  unfold unsigned?
  dsimp only
  split
  · exact absurd List.mem_cons_self (are.not_mem (by decide))
  · rw [digits?_of_areDigits are]
    simp [Option.filter]

theorem unsigned?_minus (bits : Nat) (rest : List Char) : unsigned? bits ('-' :: rest) = none := by
  simp [unsigned?, digits?]

/-! ### Writing -/

theorem areDigits_toDigits (n : Nat) : AreDigits (Nat.toDigits 10 n) where
  nonempty := Nat.toDigits_ne_nil
  all _ := Nat.isDigit_of_mem_toDigits (by decide) (by decide)

/-- The text of an integer denotes it. -/
theorem denotes_toString (i : Int) : Denotes (toString i).toList i := by
  have back (n : Nat) : Nat.ofDigitChars 10 (Nat.toDigits 10 n) 0 = n :=
    Nat.ofDigitChars_toDigits (by decide) (by decide)
  rw [Int.toString_eq_repr, Int.repr_eq_if]
  split
  · rename_i nonneg
    have plain := Denotes.plain (areDigits_toDigits i.toNat)
    rwa [back, Int.toNat_of_nonneg nonneg, ← Nat.toList_repr] at plain
  · rename_i negative
    have minus := Denotes.minus (areDigits_toDigits (-i).toNat)
    rw [back, Int.toNat_of_nonneg (by omega), Int.neg_neg, ← Nat.toList_repr] at minus
    simpa using minus

end Text

end Schemata
