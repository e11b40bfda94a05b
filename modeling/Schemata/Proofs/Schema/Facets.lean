import Schemata.Proofs.Double.Integral
import Schemata.Proofs.Json.Settled
import Schemata.Schema.Document

/-!
# Facets of documents

What a schema says of values comes back from a document as it was, with two exceptions: an integral
bound becomes the number nearest to the integer, which equals it below 2 ^ 53, and a default or an
example that is null is not there anymore.
-/
namespace Schemata

namespace Double

/-- An integer that a number holds beyond doubt. -/
def IsSafeInteger (x : Double) : Prop := ∃ i, x.toInt? = some i ∧ i.natAbs < 2 ^ 53

/-- The number that is read where an integral one was written. -/
def reread (x : Double) : Double := (x.toInt?.map ofInt).getD x

variable {x : Double}

theorem IsSafeInteger.double?_boundJson (h : x.IsSafeInteger) :
    Json.double? x.boundJson = some x.reread := by
  obtain ⟨i, whole, small⟩ := h
  have fits : i.natAbs < Nat.pow 2 63 := lt_trans small (by decide)
  rw [boundJson, whole, reread, whole]
  dsimp only
  rw [if_pos fits]
  rfl

theorem IsSafeInteger.eqv_reread (h : x.IsSafeInteger) : x.eqv x.reread = true := by
  obtain ⟨i, whole, small⟩ := h
  refine eqv_of_toInt? whole ?_
  rw [reread, whole]
  exact toInt?_ofInt small

end Double

/-- Pairs with different keys are the same as themselves. -/
theorem Assoc.sameBy_self {ν : Type} {same : ν → ν → Bool} {m : Assoc String ν}
    (distinct : m.keys.Nodup) (h : ∀ pair ∈ m, same pair.2 pair.2 = true) : Assoc.sameBy same m m = true := by
  rw [Assoc.sameBy, beq_self_eq_true, Bool.true_and]
  refine List.all_eq_true.mpr fun pair hpair => ?_
  rw [(Assoc.get?_eq_some_iff distinct).mpr hpair]
  exact h pair hpair

theorem sameOption_self {α : Type} {same : α → α → Bool} {found : Option α}
    (h : ∀ a ∈ found, same a a = true) : sameOption same found found = true := by
  cases found with
  | none => rfl
  | some a => exact h a rfl

theorem Discriminator.eqv_self {d : Discriminator} (distinct : d.mapping.keys.Nodup) :
    d.eqv d = true := by
  rw [Discriminator.eqv, beq_self_eq_true, Bool.true_and]
  exact Assoc.sameBy_self distinct fun pair _ => beq_self_eq_true pair.2

def Json.isNull : Json → Bool
  | .null => true
  | _ => false

namespace Facets

variable {f : Facets}

/-- The bounds, which are numbers. -/
def bounds (f : Facets) : List Double :=
  f.multipleOf.toList ++ f.minimum.toList ++ f.maximum.toList

/-- The limits to lengths and sizes. -/
def limits (f : Facets) : List Nat :=
  f.minLength.toList ++ f.maxLength.toList ++ f.minItems.toList ++ f.maxItems.toList
    ++ f.minProperties.toList ++ f.maxProperties.toList

/-- The literals, those of extensions among them. -/
def literals (f : Facets) : List Json :=
  f.defaultValue.toList ++ f.exampleValue.toList ++ f.examples.getD [] ++ f.enumValues.getD []
    ++ f.extensions.map Prod.snd

/-- Facets as a document can say them. -/
structure IsDocument (f : Facets) : Prop where
  bounds : ∀ x ∈ f.bounds, x.IsSafeInteger
  limits : ∀ n ∈ f.limits, n < 2 ^ 64
  literals : ∀ value ∈ f.literals, value.IsValue
  mapping : ∀ d, f.discriminator = some d → d.mapping.keys.Nodup
  extensions : f.extensions.keys.Nodup
  prefixed : ∀ key ∈ f.extensions.keys, "x-".toList <+: key.toList

namespace IsDocument

theorem multipleOf (h : f.IsDocument) : ∀ x ∈ f.multipleOf, x.IsSafeInteger :=
  fun x hx => h.bounds x (by simp [Facets.bounds, Option.mem_def.mp hx])

theorem minimum (h : f.IsDocument) : ∀ x ∈ f.minimum, x.IsSafeInteger :=
  fun x hx => h.bounds x (by simp [Facets.bounds, Option.mem_def.mp hx])

theorem maximum (h : f.IsDocument) : ∀ x ∈ f.maximum, x.IsSafeInteger :=
  fun x hx => h.bounds x (by simp [Facets.bounds, Option.mem_def.mp hx])

theorem defaultValue (h : f.IsDocument) : ∀ value ∈ f.defaultValue, value.IsValue :=
  fun value hv => h.literals value (by simp [Facets.literals, Option.mem_def.mp hv])

theorem exampleValue (h : f.IsDocument) : ∀ value ∈ f.exampleValue, value.IsValue :=
  fun value hv => h.literals value (by simp [Facets.literals, Option.mem_def.mp hv])

theorem examples (h : f.IsDocument) : ∀ items ∈ f.examples, ∀ value ∈ items, value.IsValue :=
  fun items hi value hv => h.literals value (by simp [Facets.literals, Option.mem_def.mp hi, hv])

theorem enumValues (h : f.IsDocument) : ∀ items ∈ f.enumValues, ∀ value ∈ items, value.IsValue :=
  fun items hi value hv => h.literals value (by simp [Facets.literals, Option.mem_def.mp hi, hv])

theorem extension (h : f.IsDocument) : ∀ pair ∈ f.extensions, pair.2.IsValue :=
  fun pair hpair => h.literals pair.2 (List.mem_append_right _ (List.mem_map_of_mem hpair))

end IsDocument

/-- Neither the default nor the example is null. -/
def IsNullFree (f : Facets) : Prop := f.defaultValue ≠ some .null ∧ f.exampleValue ≠ some .null

/-- Without a default or an example that is null. -/
def withoutNulls (f : Facets) : Facets :=
  { f with
    defaultValue := f.defaultValue.filter (!·.isNull)
    exampleValue := f.exampleValue.filter (!·.isNull) }

/-- What is read where facets were written. -/
def reread (f : Facets) : Facets :=
  { f.withoutNulls with
    multipleOf := f.multipleOf.map Double.reread
    minimum := f.minimum.map Double.reread
    maximum := f.maximum.map Double.reread }

theorem filter_eq_self_iff {found : Option Json} :
    found.filter (!·.isNull) = found ↔ found ≠ some .null := by
  cases found with
  | none => simp
  | some value => cases value <;> simp [Json.isNull]

/-! ### Equality -/

theorem beq_self_of_isValue {found : Option Json} (h : ∀ value ∈ found, value.IsValue) :
    (found == found) = true := by
  cases found with
  | none => rfl
  | some value => exact (h value rfl).beq_self

theorem beq_self_of_areValues {found : Option (List Json)}
    (h : ∀ items ∈ found, ∀ value ∈ items, value.IsValue) : (found == found) = true := by
  cases found with
  | none => rfl
  | some items =>
    have each := h items rfl
    show (items == items) = true
    induction items with
    | nil => rfl
    | cons value rest ih =>
      obtain ⟨first, others⟩ := List.forall_mem_cons.mp each
      rw [List.cons_beq_cons, first.beq_self, ih (by simpa using others) others]
      rfl

theorem sameOption_reread {found : Option Double} (h : ∀ x ∈ found, x.IsSafeInteger) :
    sameOption Double.eqv found (found.map Double.reread) = true := by
  cases found with
  | none => rfl
  | some x => exact (h x rfl).eqv_reread

/-- With whatever default and example, all else that is read again equals what was written. -/
theorem eqv_reread_of (h : f.IsDocument) (defaultValue exampleValue : Option Json) :
    Facets.eqv { f with defaultValue := defaultValue, exampleValue := exampleValue } f.reread =
      (defaultValue == f.withoutNulls.defaultValue &&
        exampleValue == f.withoutNulls.exampleValue) := by
  have multipleOf := sameOption_reread h.multipleOf
  have minimum := sameOption_reread h.minimum
  have maximum := sameOption_reread h.maximum
  have examples := beq_self_of_areValues h.examples
  have enumValues := beq_self_of_areValues h.enumValues
  have discriminator := sameOption_self fun d (hd : d ∈ f.discriminator) =>
    Discriminator.eqv_self (h.mapping d hd)
  have extensions :=
    Assoc.sameBy_self h.extensions fun pair hpair => (h.extension pair hpair).beq_self
  simp only [eqv, reread, withoutNulls, beq_self_eq_true, Bool.true_and, Bool.and_true, multipleOf,
    minimum, maximum, examples, enumValues, discriminator, extensions]

theorem beq_filter_iff {found : Option Json} (h : ∀ value ∈ found, value.IsValue) :
    (found == found.filter (!·.isNull)) = true ↔ found ≠ some .null := by
  constructor
  · rintro same rfl
    exact absurd same (by decide)
  · intro h'
    rw [filter_eq_self_iff.mpr h']
    exact beq_self_of_isValue h

/-- What is read equals what was written exactly where no null was lost. -/
theorem eqv_reread_iff (h : f.IsDocument) : f.eqv f.reread = true ↔ f.IsNullFree := by
  have same := eqv_reread_of h f.defaultValue f.exampleValue
  rw [same, Bool.and_eq_true]
  exact and_congr (beq_filter_iff h.defaultValue) (beq_filter_iff h.exampleValue)

theorem eqv_reread (h : f.IsDocument) : f.withoutNulls.eqv f.reread = true := by
  have kept {found : Option Json} (values : ∀ value ∈ found, value.IsValue) :
      (found.filter (!·.isNull) == found.filter (!·.isNull)) = true :=
    beq_self_of_isValue fun value hv => values value (Option.mem_filter_iff.mp hv).1
  refine (eqv_reread_of h f.withoutNulls.defaultValue f.withoutNulls.exampleValue).trans ?_
  rw [Bool.and_eq_true]
  exact ⟨kept h.defaultValue, kept h.exampleValue⟩

end Facets

end Schemata
