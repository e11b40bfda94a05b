import Schemata.Proofs.Coerce.Integers
import Schemata.Proofs.Text.Splitting

/-!
# What texts are coerced to

A text is no value if it is empty.  Any other text that is accepted says the value that it becomes:
an integer in decimal digits, a truth value by its name, a text itself, and JSON of the kind that
the type asks for.  An array may also be written as pieces between commas.
-/
namespace Schemata

namespace Coerce

variable {raw : String} {format : Option String} {type : Option SchemaType} {v : Json}

theorem coerce_eq_none_iff : coerce raw type format = .ok none ↔ raw = "" := by
  by_cases empty : raw = ""
  · simp [coerce, empty]
  · rw [coerce, if_neg empty]
    cases value raw type format <;> simp [Except.map, empty]

/-- What is accepted is a value of a text that is not empty. -/
theorem coerce_eq_some_iff :
    coerce raw type format = .ok (some v) ↔ raw ≠ "" ∧ value raw type format = .ok v := by
  by_cases empty : raw = ""
  · simp [coerce, empty]
  · rw [coerce, if_neg empty]
    cases value raw type format <;> simp [Except.map, empty]

theorem integer_eq_ok_iff {text : List Char} : integer text format = .ok v ↔
    ∃ i, v = .num (.int i) ∧ Text.Denotes text i ∧ Within format i := by
  constructor
  · intro accepted
    by_cases denotes : ∃ i, Text.Denotes text i
    · obtain ⟨i, h⟩ := denotes
      rw [integer_of_denotes format h] at accepted
      split at accepted
      · rename_i within
        exact ⟨i, (Except.ok.inj accepted).symm, h, within⟩
      · cases accepted
    · by_cases minus : text = ['-']
      · rw [minus, integer_minus] at accepted
        cases accepted
      · rw [integer_of_not_denotes format denotes minus] at accepted
        cases accepted
  · rintro ⟨i, rfl, h, within⟩
    rw [integer_of_denotes format h, if_pos within]

theorem boolean_eq_ok_iff : boolean raw = .ok v ↔
    ∃ b : Bool, v = .bool b ∧ Text.sameIgnoringCase raw (toString b) = true := by
  have apart (yes : Text.sameIgnoringCase raw "true" = true) :
      Text.sameIgnoringCase raw "false" = false := by
    rw [Text.sameIgnoringCase, eq_of_beq yes]
    decide
  rw [Bool.exists_bool]
  change boolean raw = .ok v ↔ v = .bool false ∧ Text.sameIgnoringCase raw "false" = true ∨
    v = .bool true ∧ Text.sameIgnoringCase raw "true" = true
  unfold boolean
  by_cases yes : Text.sameIgnoringCase raw "true" = true
  · simp [yes, apart yes, eq_comm]
  · by_cases no : Text.sameIgnoringCase raw "false" = true
    · simp [yes, no, eq_comm]
    · simp [yes, no]

theorem string_eq_ok_iff :
    string raw format = .ok v ↔ fits format raw.toList = true ∧ v = .str raw := by
  unfold string
  split
  · rename_i fitting
    simp [fitting, eq_comm]
  · rename_i other
    simp [other]

/-- JSON is accepted if it is of the kind that is asked for. -/
theorem structured_eq_ok_iff {kind : SchemaType} {isOfKind : Json → Bool} :
    structured raw kind isOfKind = .ok v ↔ Json.parse raw = .ok v ∧ isOfKind v = true := by
  unfold structured
  cases Json.parse raw with
  | error e => simp
  | ok value =>
    simp only [Except.ok.injEq]
    split
    · rename_i same
      exact ⟨fun h => ⟨Except.ok.inj h, Except.ok.inj h ▸ same⟩, fun h => congrArg _ h.1⟩
    · rename_i other
      exact ⟨fun h => (by cases h), fun h => absurd (h.1 ▸ h.2) other⟩

theorem asArr?_isSome_iff : v.asArr?.isSome = true ↔ ∃ items, v = .arr items := by
  cases v <;> simp [Json.asArr?]

theorem asObj?_isSome_iff : v.asObj?.isSome = true ↔ ∃ members, v = .obj members := by
  cases v <;> simp [Json.asObj?]

/-- What denotes an integer is not read as another one. -/
theorem eq_of_coerce {i j : Int}
    (accepted : coerce raw (some .integer) format = .ok (some (.num (.int i))))
    (denotes : Text.Denotes (Text.trim raw.toList) j) : j = i := by
  have read : integer (Text.trim raw.toList) format = .ok (.num (.int i)) :=
    (coerce_eq_some_iff.mp accepted).2
  obtain ⟨k, same, h, -⟩ := integer_eq_ok_iff.mp read
  cases same
  exact denotes.unique h

/-- The decimal text of an integer of a format is accepted. -/
theorem coerce_toString {i : Int} (within : Within format i) :
    coerce (toString i) (some .integer) format = .ok (some (.num (.int i))) := by
  have denotes := Text.denotes_toString i
  have nonempty : toString i ≠ "" := by
    intro empty
    rw [empty] at denotes
    cases denotes with
    | plain are => exact are.nonempty rfl
  rw [coerce_integer nonempty, Text.trim_of_no_blank denotes.no_blank,
    integer_of_denotes format denotes, if_pos within]
  rfl

/-! ### Pieces -/

/-- An array is read as JSON if there is no text or a bracket begins it, and otherwise as the
trimmed pieces between its commas. -/
theorem coerceMany_array (raw : String) (format : Option String) :
    (raw = "" ∨ (Text.trimStart raw.toList).head? = some '[') ∧
        coerceMany raw (some .array) format = coerce raw (some .array) format ∨
      raw.toList.head? ≠ some '[' ∧ ∃ pieces, Text.IsSplit ',' raw.toList pieces ∧
        coerceMany raw (some .array) format =
          .ok (some (.arr (pieces.map fun piece => .str (String.ofList (Text.trim piece))))) := by
  by_cases json : raw = "" ∨ (Text.trimStart raw.toList).head? = some '['
  · refine .inl ⟨json, if_neg fun ⟨_, plain, nonempty⟩ => ?_⟩
    exact json.elim nonempty plain
  · obtain ⟨nonempty, plain⟩ := not_or.mp json
    refine .inr ⟨fun bracket => plain ?_, _, Text.isSplit_splitOn ',' raw.toList,
      if_pos ⟨rfl, plain, nonempty⟩⟩
    obtain ⟨rest, begun⟩ := List.head?_eq_some_iff.mp bracket
    rw [begun, Text.trimStart_cons_of_not_blank (by decide), List.head?_cons]

/-! ### All types -/

/-- What the values that a text is coerced to have to do with the text. -/
structure IsSound (raw : String) (format : Option String) : Prop where
  none_iff (type : Option SchemaType) : coerce raw type format = .ok none ↔ raw = ""
  integer_iff (v : Json) : coerce raw (some .integer) format = .ok (some v) ↔
    ∃ i, v = .num (.int i) ∧ Text.Denotes (Text.trim raw.toList) i ∧ Within format i
  same {i j : Int} : coerce raw (some .integer) format = .ok (some (.num (.int i))) →
    Text.Denotes (Text.trim raw.toList) j → j = i
  decimal (i : Int) : Within format i →
    coerce (toString i) (some .integer) format = .ok (some (.num (.int i)))
  boolean_iff (v : Json) : coerce raw (some .boolean) format = .ok (some v) ↔
    ∃ b : Bool, v = .bool b ∧ Text.sameIgnoringCase raw (toString b) = true
  string_iff (v : Json) : coerce raw (some .string) format = .ok (some v) ↔
    raw ≠ "" ∧ fits format raw.toList = true ∧ v = .str raw
  array_iff (v : Json) : coerce raw (some .array) format = .ok (some v) ↔
    raw ≠ "" ∧ Json.parse raw = .ok v ∧ ∃ items, v = .arr items
  object_iff (v : Json) : coerce raw (some .object) format = .ok (some v) ↔
    raw ≠ "" ∧ Json.parse raw = .ok v ∧ ∃ members, v = .obj members
  null_iff (v : Json) : coerce raw (some .null) format = .ok (some v) ↔ raw = "null" ∧ v = .null
  many : (raw = "" ∨ (Text.trimStart raw.toList).head? = some '[') ∧
      coerceMany raw (some .array) format = coerce raw (some .array) format ∨
    raw.toList.head? ≠ some '[' ∧ ∃ pieces, Text.IsSplit ',' raw.toList pieces ∧
      coerceMany raw (some .array) format =
        .ok (some (.arr (pieces.map fun piece => .str (String.ofList (Text.trim piece)))))

/-- Coercion is sound for every text and format. -/
theorem isSound (raw : String) (format : Option String) : IsSound raw format where
  none_iff _ := coerce_eq_none_iff
  integer_iff v := by
    rw [coerce_eq_some_iff]
    change raw ≠ "" ∧ integer (Text.trim raw.toList) format = .ok v ↔ _
    rw [integer_eq_ok_iff, and_iff_right_iff_imp]
    rintro ⟨i, -, denotes, -⟩ rfl
    cases denotes with
    | plain are => exact are.nonempty rfl
  same := eq_of_coerce
  decimal _ := coerce_toString
  boolean_iff v := by
    rw [coerce_eq_some_iff]
    change raw ≠ "" ∧ boolean raw = .ok v ↔ _
    rw [boolean_eq_ok_iff, and_iff_right_iff_imp]
    rintro ⟨b, -, same⟩ rfl
    cases b <;> cases same
  string_iff v := by
    rw [coerce_eq_some_iff, ← string_eq_ok_iff]
    rfl
  array_iff v := by
    rw [coerce_eq_some_iff, ← asArr?_isSome_iff]
    exact and_congr_right fun _ => structured_eq_ok_iff
  object_iff v := by
    rw [coerce_eq_some_iff, ← asObj?_isSome_iff]
    exact and_congr_right fun _ => structured_eq_ok_iff
  null_iff v := by
    rw [coerce_eq_some_iff]
    change raw ≠ "" ∧ (if raw = "null" then .ok .null else .error (CoerceError.mismatch .null none)) =
      Except.ok v ↔ _
    by_cases null : raw = "null"
    · subst null
      rw [if_pos rfl, Except.ok.injEq, eq_comm (a := Json.null), and_iff_right rfl]
      exact and_iff_right (by decide)
    · simp [null]
  many := coerceMany_array raw format

/-- Two colours between commas, and the least integer of 64 bits. -/
example : coerceMany "red, green" (some .array) none =
      .ok (some (.arr [.str "red", .str "green"])) ∧
    coerce " -9223372036854775808" (some .integer) none =
      .ok (some (.num (.int (-9223372036854775808)))) :=
  ⟨by rfl, by rfl⟩

end Coerce

end Schemata
