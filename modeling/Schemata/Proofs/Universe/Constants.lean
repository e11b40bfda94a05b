import Schemata.Universe.Representation

/-!
# Constants

A constant is listed by the text that is written for it or by its name.  Only what is written is
read as the enumeration is represented; a name is listed as it is.
-/
namespace Schemata

namespace Universe

theorem declared_of_kindOf_enum {u : Universe} {t : TypeRef} {d : Decl}
    (h : u.kindOf t = .enum d) : u.declOf? t = some d ∧ d.kind = .enum := by
  have declared : u.declOf? t = some d := declOf?_of_kindOf (by rw [h]; rfl)
  refine ⟨declared, ?_⟩
  cases t with
  | named name =>
    change u.get? name = some d at declared
    rw [kindOf, declared] at h
    unfold kindOfDecl at h
    dsimp only at h
    split at h <;> first | assumption | cases h
  | _ => cases h

end Universe

namespace Constant

variable {c : Constant} {owner text : String} {type : Option SchemaType} {format : Option String}

/-- The text of the constant where all constants are texts. -/
def written (c : Constant) : String := c.literal?.getD c.name

theorem ne_empty_of_literal? (h : c.literal? = some text) : text ≠ "" := by
  obtain ⟨d, -, valued⟩ := Option.bind_eq_some_iff.mp h
  unfold Directive.value? Directive.text? at valued
  split at valued
  · split at valued
    · cases valued
    · rename_i nonempty
      exact Option.some.inj valued ▸ nonempty
  · cases valued

theorem value_of_unwritten (h : c.literal? = none) :
    c.value owner type format = (.str c.name, []) := by
  unfold value
  rw [h]

theorem value_of_read (h : c.literal? = some text) {value : Json}
    (read : Coerce.value text type format = .ok value) :
    c.value owner type format = (value, []) := by
  have coerced : coerce text type format = .ok (some value) := by
    rw [coerce, if_neg (ne_empty_of_literal? h), read]
    rfl
  unfold Constant.value
  simp only [h, coerced]

theorem value_of_failed (h : c.literal? = some text) {e : CoerceError}
    (failed : Coerce.value text type format = .error e) :
    c.value owner type format =
      (.str c.name, [.coercionFailed (owner ++ "." ++ c.name) text e.message]) := by
  have coerced : coerce text type format = .error e := by
    rw [coerce, if_neg (ne_empty_of_literal? h), failed]
    rfl
  unfold Constant.value
  simp only [h, coerced]

/-- As a text without a format every constant is listed as it is written. -/
theorem value_of_plain (owner : String) (c : Constant) :
    c.value owner (some .string) none = (.str c.written, []) := by
  unfold written
  cases h : c.literal? with
  | none => exact value_of_unwritten h
  | some text => exact value_of_read h rfl

/-- What is noted of a constant was written for it. -/
theorem of_mem_value {noted : Diagnostic} (h : noted ∈ (c.value owner type format).2) :
    ∃ text e, c.literal? = some text ∧
      noted = .coercionFailed (owner ++ "." ++ c.name) text (CoerceError.message e) := by
  cases literal : c.literal? with
  | none =>
    rw [value_of_unwritten literal] at h
    cases h
  | some text =>
    cases read : Coerce.value text type format with
    | ok value =>
      rw [value_of_read literal read] at h
      cases h
    | error e =>
      rw [value_of_failed literal read] at h
      exact ⟨text, e, rfl, List.mem_singleton.mp h⟩

end Constant

namespace Decl

variable (d : Decl) (type : Option SchemaType) (format : Option String)

theorem enumValues_listed : (d.enumValues type format).1.getD [] =
    d.visibleConstants.map fun c => (c.value d.name type format).1 := by
  unfold enumValues
  cases d.visibleConstants <;> simp

theorem enumValues_noted : (d.enumValues type format).2 =
    d.visibleConstants.flatMap fun c => (c.value d.name type format).2 := by
  simp [enumValues, List.flatMap_map]

/-- Where all constants are texts they are listed as they are written, and nothing is noted. -/
theorem enumValues_of_plain : (d.enumValues (some .string) none).1.getD [] =
      d.visibleConstants.map (fun c => .str c.written) ∧
    (d.enumValues (some .string) none).2 = [] := by
  constructor
  · simp only [enumValues_listed, Constant.value_of_plain]
  · simp [enumValues_noted, Constant.value_of_plain]

end Decl

end Schemata
