import Schemata.Proofs.Directive.Literals
import Schemata.Proofs.Text.Integers

/-!
# Integers of a format

A text that denotes an integer is read as that integer if it lies within the limits of the format,
and else refused as too large or too small.  Any other text is refused as no integer, but for the
minus that stands alone: it passes for an integer and is then out of every range.
-/
namespace Schemata

namespace Coerce

variable {text : List Char} {format : Option String} {i : Int}

/-- The least and the greatest integer of a format; without one of the two widths an integer is of
64 bits, with a sign or without. -/
def limits : Option String → Int × Int
  | some "int32" => (-2147483648, 2147483647)
  | some "int64" => (-9223372036854775808, 9223372036854775807)
  | _ => (-9223372036854775808, 18446744073709551615)

def Within (format : Option String) (i : Int) : Prop :=
  (limits format).1 ≤ i ∧ i ≤ (limits format).2

instance (format : Option String) (i : Int) : Decidable (Within format i) :=
  inferInstanceAs (Decidable (_ ∧ _))

/-- What the range of a format is called. -/
def rangeName : Option String → String
  | some "int32" => "int32"
  | some "int64" => "int64"
  | _ => "integer"

theorem inSignedRange_iff {bits : Nat} : Text.inSignedRange bits i = true ↔
    -(Nat.pow 2 (bits - 1) : Int) ≤ i ∧ i < (Nat.pow 2 (bits - 1) : Int) := by
  simp [Text.inSignedRange]

/-- An unsigned integer of 64 bits may be greater than any signed one. -/
theorem within_unnamed_iff (narrow : format ≠ some "int32") (wide : format ≠ some "int64") :
    Within format i ↔ -9223372036854775808 ≤ i ∧ i ≤ 18446744073709551615 := by
  unfold Within limits
  split
  · exact absurd rfl narrow
  · exact absurd rfl wide
  · rfl

/-- The integers of a format are those between its limits. -/
theorem isInRange_iff : isInRange format i = true ↔ Within format i := by
  by_cases narrow : format = some "int32"
  · subst narrow
    rw [isInRange, inSignedRange_iff, Within, limits, Nat.pow_eq]
    omega
  · by_cases wide : format = some "int64"
    · subst wide
      rw [isInRange, inSignedRange_iff, Within, limits, Nat.pow_eq]
      omega
    · rw [within_unnamed_iff narrow wide, isInRange_of_unnamed narrow wide, Bool.or_eq_true,
        Bool.and_eq_true, decide_eq_true_eq, decide_eq_true_eq, inSignedRange_iff]
      simp only [Nat.pow_eq]
      omega

/-! ### Reading -/

theorem looksIntegral_iff :
    looksIntegral text = true ↔ text = ['-'] ∨ ∃ i, Text.Denotes text i := by
  constructor
  · intro h
    obtain ⟨nonempty, body⟩ := Bool.and_eq_true_iff.mp h
    split at body
    · rename_i rest
      cases rest with
      | nil => exact .inl rfl
      | cons c rest =>
        exact .inr ⟨_, .minus ⟨List.cons_ne_nil c rest, List.all_eq_true.mp body⟩⟩
    · exact .inr ⟨_, .plain ⟨by simpa using nonempty, List.all_eq_true.mp body⟩⟩
  · rintro (rfl | ⟨i, denotes⟩)
    · rfl
    · cases denotes with
      | plain are =>
        have nonempty : text.isEmpty = false := List.isEmpty_eq_false_iff.mpr are.nonempty
        unfold looksIntegral
        rw [nonempty]
        split
        · exact absurd List.mem_cons_self (are.not_mem (by decide))
        · exact List.all_eq_true.mpr are.all
      | minus are => exact List.all_eq_true.mpr are.all

/-- Without a width a text is read as a signed integer, or else as an unsigned one. -/
theorem readInteger_of_unnamed (narrow : format ≠ some "int32") (wide : format ≠ some "int64") :
    readInteger text format =
      ((Text.signed? 64 text).or (Option.map Nat.cast (Text.unsigned? 64 text)),
        rangeName format) := by
  have range : rangeName format = "integer" := by
    unfold rangeName
    split
    · exact absurd rfl narrow
    · exact absurd rfl wide
    · rfl
  rw [range]
  unfold readInteger
  split
  · exact absurd rfl narrow
  · exact absurd rfl wide
  · cases Text.unsigned? 64 text <;> rfl

/-- What is too great for a signed integer of 64 bits may be an unsigned one, if no minus stands in
front of it. -/
theorem signed?_or_unsigned?_of_denotes (h : Text.Denotes text i) :
    (Text.signed? 64 text).or (Option.map Nat.cast (Text.unsigned? 64 text)) =
      if -9223372036854775808 ≤ i ∧ i ≤ 18446744073709551615 then some i else none := by
  rw [Text.signed?_of_denotes 64 h]
  simp only [inSignedRange_iff, Nat.pow_eq]
  cases h with
  | plain are =>
    rw [Text.unsigned?_of_areDigits 64 are]
    generalize Nat.ofDigitChars 10 text 0 = n
    by_cases small : n < 2 ^ 63
    · rw [if_pos (by omega), Option.some_or, if_pos (by omega)]
    · rw [if_neg (by omega), Option.none_or]
      by_cases great : n < Nat.pow 2 64
      · rw [if_pos great, Option.map_some, if_pos (by rw [Nat.pow_eq] at great; omega)]
      · rw [if_neg great, Option.map_none, if_neg (by rw [Nat.pow_eq] at great; omega)]
  | minus are =>
    rw [Text.unsigned?_minus, Option.map_none, Option.or_none]
    refine ite_congr (propext ?_) (fun _ => rfl) fun _ => rfl
    omega

/-- A text is read as what it denotes, within the limits of the format. -/
theorem readInteger_of_denotes (format : Option String) (h : Text.Denotes text i) :
    readInteger text format = (if Within format i then some i else none, rangeName format) := by
  have signed {bits : Nat} : Text.signed? bits text =
      if Text.inSignedRange bits i = true then some i else none := Text.signed?_of_denotes bits h
  by_cases narrow : format = some "int32"
  · subst narrow
    simp only [readInteger, rangeName, signed, ← isInRange_iff, isInRange]
  · by_cases wide : format = some "int64"
    · subst wide
      simp only [readInteger, rangeName, signed, ← isInRange_iff, isInRange]
    · rw [readInteger_of_unnamed narrow wide, signed?_or_unsigned?_of_denotes h]
      simp only [within_unnamed_iff narrow wide]

theorem readInteger_minus (format : Option String) :
    readInteger ['-'] format = (none, rangeName format) := by
  by_cases narrow : format = some "int32"
  · subst narrow
    rfl
  · by_cases wide : format = some "int64"
    · subst wide
      rfl
    · rw [readInteger_of_unnamed narrow wide]
      rfl

/-! ### What becomes of a text -/

theorem integer_of_denotes (format : Option String) (h : Text.Denotes text i) :
    integer text format = if Within format i then .ok (.num (.int i))
      else .error (.outOfRange (String.ofList text) (rangeName format)) := by
  have looks : looksIntegral text = true := looksIntegral_iff.mpr (.inr ⟨i, h⟩)
  rw [integer, looks, readInteger_of_denotes format h]
  by_cases within : Within format i
  · simp only [if_pos within, Bool.not_true, Bool.false_eq_true, if_false]
  · simp only [if_neg within, Bool.not_true, Bool.false_eq_true, if_false]

/-- A lone minus is out of every range. -/
theorem integer_minus (format : Option String) :
    integer ['-'] format = .error (.outOfRange "-" (rangeName format)) := by
  have looks : looksIntegral ['-'] = true := rfl
  rw [integer, looks, readInteger_minus]
  rfl

theorem integer_of_not_denotes (format : Option String) (h : ¬ ∃ i, Text.Denotes text i)
    (other : text ≠ ['-']) : integer text format = .error (.mismatch .integer format) := by
  have looks : looksIntegral text = false :=
    Bool.eq_false_iff.mpr fun looks => (looksIntegral_iff.mp looks).elim other h
  rw [integer, looks]
  rfl

/-! ### Refusals -/

/-- Why a text is refused tells what it is: what denotes an integer beyond the limits of the format
is out of range, and what denotes no integer is a mismatch. -/
structure ClassifiesRefusals (raw : String) (format : Option String) : Prop where
  outOfRange :
    (∃ value range, coerce raw (some .integer) format = .error (.outOfRange value range)) ↔
      ∃ i, Text.Denotes (Text.trim raw.toList) i ∧ ¬ Within format i
  mismatch :
    (∃ type stated, coerce raw (some .integer) format = .error (.mismatch type stated)) ↔
      ¬ ∃ i, Text.Denotes (Text.trim raw.toList) i

variable {raw : String}

theorem coerce_integer (nonempty : raw ≠ "") (format : Option String) :
    coerce raw (some .integer) format = (integer (Text.trim raw.toList) format).map some := by
  rw [coerce, if_neg nonempty]
  rfl

/-- The ways in which a text is refused as an integer. -/
inductive Refusal (text : List Char) (format : Option String) : CoerceError → Prop where
  | beyond {i : Int} (denotes : Text.Denotes text i) (out : ¬ Within format i) :
      Refusal text format (.outOfRange (String.ofList text) (rangeName format))
  | minus (alone : text = ['-']) : Refusal text format (.outOfRange "-" (rangeName format))
  | noInteger (none : ¬ ∃ i, Text.Denotes text i) (other : text ≠ ['-']) :
      Refusal text format (.mismatch .integer format)

theorem integer_eq_error_iff {e : CoerceError} :
    integer text format = .error e ↔ Refusal text format e := by
  constructor
  · intro refused
    by_cases minus : text = ['-']
    · rw [minus, integer_minus] at refused
      cases refused
      exact .minus minus
    · by_cases denotes : ∃ i, Text.Denotes text i
      · obtain ⟨i, h⟩ := denotes
        rw [integer_of_denotes format h] at refused
        split at refused
        · cases refused
        · rename_i out
          cases refused
          exact .beyond h out
      · rw [integer_of_not_denotes format denotes minus] at refused
        cases refused
        exact .noInteger denotes minus
  · intro refusal
    cases refusal with
    | beyond denotes out => rw [integer_of_denotes format denotes, if_neg out]
    | minus alone => rw [alone, integer_minus]
    | noInteger none other => exact integer_of_not_denotes format none other

/-- Texts are refused in these ways and no others, and but for the minus that stands alone between
blanks each refusal tells what the text denotes. -/
theorem classifiesRefusals_iff (nonempty : raw ≠ "") (format : Option String) :
    (∀ e, coerce raw (some .integer) format = .error e ↔
      Refusal (Text.trim raw.toList) format e) ∧
    (ClassifiesRefusals raw format ↔ Text.trim raw.toList ≠ ['-']) := by
  have refusal (e : CoerceError) : coerce raw (some .integer) format = .error e ↔
      Refusal (Text.trim raw.toList) format e := by
    rw [coerce_integer nonempty, ← integer_eq_error_iff]
    cases integer (Text.trim raw.toList) format <;> simp [Except.map]
  refine ⟨refusal, fun classifies minus => ?_, fun other => ?_⟩
  · obtain ⟨i, h, -⟩ := classifies.outOfRange.mp ⟨_, _, (refusal _).mpr (.minus minus)⟩
    rw [minus] at h
    exact Text.not_denotes_minus h
  · constructor
    · constructor
      · rintro ⟨value, range, refused⟩
        cases (refusal _).mp refused with
        | beyond denotes out => exact ⟨_, denotes, out⟩
        | minus alone => exact absurd alone other
      · rintro ⟨i, denotes, out⟩
        exact ⟨_, _, (refusal _).mpr (.beyond denotes out)⟩
    · constructor
      · rintro ⟨type, stated, refused⟩
        cases (refusal _).mp refused with
        | noInteger none => exact none
      · intro none
        exact ⟨_, _, (refusal _).mpr (.noInteger none other)⟩

/-- Three thousand million are an integer, but not of 32 bits. -/
theorem classifiesRefusals_iff_tooGreat :
    " 3000000000" ≠ "" ∧
      coerce " 3000000000" (some .integer) (some "int32") =
        .error (.outOfRange "3000000000" "int32") ∧
      ClassifiesRefusals " 3000000000" (some "int32") := by
  have nonempty : " 3000000000" ≠ "" := by decide
  have classified := classifiesRefusals_iff nonempty (some "int32")
  have trimmed : Text.trim " 3000000000".toList = "3000000000".toList := by decide
  have denotes : Text.Denotes "3000000000".toList 3000000000 :=
    .plain ⟨by decide, List.all_eq_true.mp (by decide)⟩
  have beyond := Refusal.beyond denotes (show ¬ Within (some "int32") 3000000000 by decide)
  rw [String.ofList_toList, ← trimmed] at beyond
  exact ⟨nonempty, (classified.1 _).mpr beyond, classified.2.mpr (by decide)⟩

/-- A minus alone is no integer, and is refused as one that is out of range. -/
theorem not_classifiesRefusals_minus : ¬ ClassifiesRefusals "-" none := by
  intro classifies
  obtain ⟨i, denotes, -⟩ := classifies.outOfRange.mp ⟨"-", "integer", rfl⟩
  exact Text.not_denotes_minus denotes

end Coerce

end Schemata
