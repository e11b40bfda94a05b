import Schemata.Pass.Literals
import Schemata.Proofs.Directive.Extensions

/-!
# Literals in directives

An example or a default of a schema directive is read twice.  Canonical form reads what stands
between braces or brackets as JSON, before the type is known.  A text that is left is read against
the type that its schema ends up with, and conforms to it or is reported and kept.
-/
namespace Schemata

/-! ### Single literals -/

/-- The single literals of a schema. -/
inductive LiteralSlot where
  | exampleValue
  | defaultValue
  deriving DecidableEq, Repr

namespace LiteralSlot

/-- The key of the literal in canonical form. -/
def key : LiteralSlot → String
  | .exampleValue => "example"
  | .defaultValue => "default"

/-- What a directive states for it before it is brought into canonical form; a default goes by two
keys. -/
def written : LiteralSlot → Directive → Option Json
  | .exampleValue, d => d.get? "example"
  | .defaultValue, d => (d.get? "defaultValue").or (d.get? "default")

def value? : LiteralSlot → Facets → Option Json
  | .exampleValue, f => f.exampleValue
  | .defaultValue, f => f.defaultValue

end LiteralSlot

namespace Json

/-- Lists and objects. -/
def isComposite : Json → Bool
  | .arr _ => true
  | .obj _ => true
  | _ => false

theorem isComposite_settle (value : Json) : value.settle.isComposite = value.isComposite := by
  cases value <;> rfl

theorem isComposite_of_readItems {item : Reader Json} {rounds : Nat} {done : List Json}
    {rest after : List Char} {value : Json}
    (h : readItems item rounds done rest = .ok (value, after)) :
    value.isComposite = true := by
  induction rounds generalizing done rest with
  | zero => cases h
  | succ rounds ih =>
    rw [readItems] at h
    split at h
    · cases h
    · cases h
      rfl
    · split at h
      · cases h
      · split at h
        · cases h
        · cases h
        · split at h
          · exact ih h
          · cases h
    · split at h
      · cases h
      · split at h
        · exact ih h
        · cases h

theorem isComposite_of_readMembers {item : Reader Json} {rounds : Nat}
    {done : List (String × Json)} {rest after : List Char} {value : Json}
    (h : readMembers item rounds done rest = .ok (value, after)) : value.isComposite = true := by
  induction rounds generalizing done rest with
  | zero => cases h
  | succ rounds ih =>
    rw [readMembers] at h
    split at h
    · cases h
    · cases h
      rfl
    · split at h
      · cases h
      · dsimp only at h
        split at h
        · cases h
        · split at h
          · exact ih h
          · cases h
        · cases h
        · cases h

/-- What begins with a bracket or a brace is a list or an object, if it is read at all. -/
theorem isComposite_of_readFirst {text rest : List Char} {value : Json}
    (opens : text.head? = some '[' ∨ text.head? = some '{')
    (h : readFirst text = .ok (value, rest)) : value.isComposite = true := by
  cases text with
  | nil => simp at opens
  | cons c after =>
    have unfolded : readFirst = readWith (some (readValue 126)) := rfl
    rw [unfolded] at h
    rcases opens with same | same <;> obtain rfl := Option.some.inj same
    · exact isComposite_of_readItems h
    · exact isComposite_of_readMembers h

theorem isComposite_of_parse {text : List Char} {value : Json}
    (opens : text.head? = some '[' ∨ text.head? = some '{')
    (h : parse (String.ofList text) = .ok value) : value.isComposite = true := by
  rw [parse, parseRaw, String.toList_ofList, readDocument] at h
  cases read : readFirst text with
  | error e =>
    rw [read] at h
    cases h
  | ok found =>
    obtain ⟨raw, rest⟩ := found
    rw [read] at h
    dsimp only [bind, Except.bind] at h
    cases ends : readEnd rest with
    | error e =>
      rw [ends] at h
      cases h
    | ok _ =>
      rw [ends] at h
      cases h
      rw [isComposite_settle]
      exact isComposite_of_readFirst opens read

end Json

namespace Canonical

/-- A text stays as it is, or it is read as a list or an object. -/
theorem isComposite_structured {text : String} (changed : structured (.str text) ≠ .str text) :
    (structured (.str text)).isComposite = true := by
  unfold structured at changed ⊢
  dsimp only at changed ⊢
  split
  · rename_i enclosed
    rw [if_pos enclosed] at changed
    split
    · rename_i value read
      refine Json.isComposite_of_parse ?_ read
      simp only [Bool.or_eq_true, Bool.and_eq_true, decide_eq_true_eq] at enclosed
      exact enclosed.symm.imp And.left And.left
    · rename_i failed
      rw [failed] at changed
      exact absurd rfl changed
  · rename_i open_
    rw [if_neg open_] at changed
    exact absurd rfl changed

/-- Canonical form reads what a schema directive states for a literal as JSON, if it stands between
braces or brackets. -/
theorem get?_schema_literal (slot : LiteralSlot) {d : Directive} (distinct : d.keys.Nodup) :
    (schema d).get? slot.key = (slot.written d).map structured := by
  cases slot with
  | exampleValue => exact (formOf_schema distinct).exampleValue
  | defaultValue => exact (formOf_schema distinct).defaultValue

end Canonical

/-! ### Literals of a type -/

namespace Coerce

/-- The integers of a format. -/
def isInRange (format : Option String) (i : Int) : Bool :=
  match format with
  | some "int32" => Text.inSignedRange 32 i
  | some "int64" => Text.inSignedRange 64 i
  | _ => Text.inSignedRange 64 i || (0 ≤ i && i < (Nat.pow 2 64 : Int))

end Coerce

namespace LiteralType

/-- The values of a type and a format. -/
def admits (l : LiteralType) (value : Json) : Bool :=
  match l.type, value with
  | none, _ => true
  | some .string, .str text => Coerce.fits l.format text.toList
  | some .integer, .num (.int i) => Coerce.isInRange l.format i
  | some .number, .num n =>
    l.format != some "float" || !Coerce.greatestSingle.lt n.toDouble.abs
  | some .boolean, .bool _ => true
  | some .object, .obj _ => true
  | some .array, .arr _ => true
  | some .null, .null => true
  | _, _ => false

end LiteralType

namespace Coerce

theorem isInRange_of_unnamed {format : Option String} {i : Int} (narrow : format ≠ some "int32")
    (wide : format ≠ some "int64") : isInRange format i =
      (Text.inSignedRange 64 i || (decide (0 ≤ i) && decide (i < (Nat.pow 2 64 : Int)))) := by
  unfold isInRange
  split
  · exact absurd rfl narrow
  · exact absurd rfl wide
  · rfl

theorem isInRange_of_readInteger {text : List Char} {format : Option String} {i : Int}
    (h : (readInteger text format).1 = some i) : isInRange format i = true := by
  have signed {bits : Nat} (h : Text.signed? bits text = some i) :
      Text.inSignedRange bits i = true := by
    unfold Text.signed? at h
    exact (Option.filter_eq_some_iff.mp h).2
  unfold readInteger at h
  split at h
  · exact signed h
  · exact signed h
  · rename_i other other'
    rw [isInRange_of_unnamed other other']
    rcases Option.or_eq_some_iff.mp h with narrow | ⟨-, wide⟩
    · rw [signed narrow, Bool.true_or]
    · simp only [Option.map_eq_some_iff, Option.bind_eq_bind, Option.bind_eq_some_iff,
        Option.pure_def, Option.some.injEq] at wide
      obtain ⟨_, ⟨n, hn, rfl⟩, rfl⟩ := wide
      have below := of_decide_eq_true (Option.filter_eq_some_iff.mp hn).2
      simp only [Bool.or_eq_true, Bool.and_eq_true, decide_eq_true_eq]
      exact .inr ⟨Int.natCast_nonneg n, by exact_mod_cast below⟩

theorem fits_of_number {text : List Char} {format : Option String} {value : Json}
    (h : number text format = .ok value) :
    ∃ n, value = .num n ∧ (format = some "float" → greatestSingle.lt n.toDouble.abs = false) := by
  unfold number at h
  split at h
  · cases h
  · rename_i x _
    split at h
    · cases h
    · rename_i fits
      split at h
      · rename_i i whole
        cases h
        refine ⟨_, rfl, fun single => ?_⟩
        rw [single, if_neg (by simp)] at whole
        cases whole
      · split at h
        · rename_i finite
          cases h
          refine ⟨_, rfl, fun single => Bool.eq_false_iff.mpr fun great => fits ?_⟩
          exact ⟨single, finite, great⟩
        · cases h

/-- What a text is read as is a value of the type that it is read against. -/
theorem admits_of_value {l : LiteralType} {raw : String} {value : Json}
    (h : Coerce.value raw l.type l.format = .ok value) : l.admits value = true := by
  have structured {type : SchemaType} {isOfType : Json → Bool}
      (h : Coerce.structured raw type isOfType = .ok value) : isOfType value = true := by
    unfold Coerce.structured at h
    split at h
    · cases h
    · split at h
      · cases h
        assumption
      · cases h
  obtain ⟨type, format⟩ := l
  cases type with
  | none => rfl
  | some type =>
    cases type with
    | string =>
      unfold Coerce.value Coerce.string at h
      dsimp only at h
      split at h
      · cases h
        assumption
      · cases h
    | boolean =>
      unfold Coerce.value Coerce.boolean at h
      dsimp only at h
      split at h
      · cases h
        rfl
      · split at h
        · cases h
          rfl
        · cases h
    | integer =>
      unfold Coerce.value Coerce.integer at h
      dsimp only at h
      split at h
      · cases h
      · split at h
        · rename_i i range read
          cases h
          exact isInRange_of_readInteger (congrArg Prod.fst read)
        · cases h
    | number =>
      obtain ⟨n, rfl, small⟩ := fits_of_number h
      by_cases single : format = some "float"
      · simp [LiteralType.admits, small single]
      · simp [LiteralType.admits, single]
    | object =>
      have object := structured h
      cases value <;> first | rfl | cases object
    | array =>
      have array := structured h
      cases value <;> first | rfl | cases array
    | null =>
      unfold Coerce.value at h
      dsimp only at h
      split at h
      · cases h
        rfl
      · cases h

end Coerce

namespace LiteralType

variable {l : LiteralType} {subject raw : String}

/-- A text that is not empty becomes a value of its type, or it is reported and kept. -/
theorem settles_literal (subject : String) (nonempty : raw ≠ "") :
    ∃ value, (l.literal subject (.str raw)).1 = some value ∧
      (l.admits value = true ∨ value = .str raw ∧
        ∃ message, .coercionFailed subject raw message ∈ (l.literal subject (.str raw)).2) := by
  cases read : Coerce.value raw l.type l.format with
  | ok value =>
    have settled : l.literal subject (.str raw) = (some value, []) := by
      simp only [literal, coerce, if_neg nonempty, read]
      rfl
    exact ⟨value, by rw [settled], .inl (Coerce.admits_of_value read)⟩
  | error e =>
    have settled : l.literal subject (.str raw) =
        (some (.str raw), [.coercionFailed subject raw e.message]) := by
      simp only [literal, coerce, if_neg nonempty, read]
      rfl
    refine ⟨.str raw, by rw [settled], .inr ⟨rfl, e.message, ?_⟩⟩
    rw [settled]
    exact List.mem_singleton_self _

/-- Texts without a format stay what they are. -/
theorem literal_of_plain (plain : l = ⟨some .string, none⟩) (nonempty : raw ≠ "") :
    l.literal subject (.str raw) = (some (.str raw), []) := by
  subst plain
  simp only [literal, coerce, if_neg nonempty]
  rfl

/-- Values that are no texts are not looked at. -/
theorem literal_of_isComposite (subject : String) {value : Json}
    (composite : value.isComposite = true) :
    l.literal subject value = (some value, []) := by
  cases value <;> first | rfl | cases composite

/-- No list and no object is a text, an integer or a truth value. -/
theorem not_admits_of_isComposite {value : Json} {type : SchemaType}
    (scalar : type ∈ [.string, .integer, .boolean]) (typed : l.type = some type)
    (composite : value.isComposite = true) : l.admits value = false := by
  obtain ⟨_, format⟩ := l
  obtain rfl := typed
  simp only [List.mem_cons, List.not_mem_nil, or_false] at scalar
  rcases scalar with rfl | rfl | rfl <;> cases value <;> first | rfl | cases composite

end LiteralType

end Schemata
