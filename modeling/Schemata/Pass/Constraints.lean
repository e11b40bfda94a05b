import Schemata.Directive.Basic
import Schemata.Schema.Basic

/-!
# Constraints as facets

Constraints of containers count items, those of values bound lengths and numbers.
-/
namespace Schemata

inductive ConstraintTarget where
  /-- Arrays, collections and maps. -/
  | container
  | value
  deriving DecidableEq, Repr

namespace Facets

/-- A lower bound, which is not met itself unless the directive includes it. -/
def withLower (f : Facets) (d : Directive) : Facets :=
  match d.number? "value" with
  | none => f
  | some bound =>
    { f with
      minimum := some bound
      exclusiveMinimum :=
        if d.flag? "inclusive" = some false then some true else f.exclusiveMinimum }

def withUpper (f : Facets) (d : Directive) : Facets :=
  match d.number? "value" with
  | none => f
  | some bound =>
    { f with
      maximum := some bound
      exclusiveMaximum :=
        if d.flag? "inclusive" = some false then some true else f.exclusiveMaximum }

theorem withLower_eq (f : Facets) (d : Directive) : f.withLower d =
    { f with
      minimum := (d.number? "value").or f.minimum
      exclusiveMinimum :=
        if (d.number? "value").isSome = true ∧ d.flag? "inclusive" = some false then some true
        else f.exclusiveMinimum } := by
  unfold withLower
  cases d.number? "value" <;> simp

theorem withUpper_eq (f : Facets) (d : Directive) : f.withUpper d =
    { f with
      maximum := (d.number? "value").or f.maximum
      exclusiveMaximum :=
        if (d.number? "value").isSome = true ∧ d.flag? "inclusive" = some false then some true
        else f.exclusiveMaximum } := by
  unfold withUpper
  cases d.number? "value" <;> simp

def withSize (f : Facets) (target : ConstraintTarget) (d : Directive) : Facets :=
  let least := d.count? "min"
  let most := d.count? "max"
  match target with
  | .container => { f with minItems := least.or f.minItems, maxItems := most.or f.maxItems }
  | .value => { f with minLength := least.or f.minLength, maxLength := most.or f.maxLength }

def withExpression (f : Facets) (d : Directive) : Facets :=
  { f with pattern := (d.text? "regexp").or f.pattern }

/-- The facets of one more constraint. -/
def constrain (target : ConstraintTarget) (f : Facets) (kind : DirectiveKind) (d : Directive) :
    Facets :=
  match kind with
  | .notEmpty =>
    match target with
    | .container => { f with minItems := some 1 }
    | .value => { f with minLength := some 1 }
  | .notBlank => { f with minLength := some 1 }
  | .size => f.withSize target d
  | .negative => { f with maximum := some (.zero false), exclusiveMaximum := some true }
  | .negativeOrZero => { f with maximum := some (.zero false) }
  | .positive => { f with minimum := some (.zero false), exclusiveMinimum := some true }
  | .positiveOrZero => { f with minimum := some (.zero false) }
  | .min => f.withLower d
  | .decimalMin => f.withLower d
  | .max => f.withUpper d
  | .decimalMax => f.withUpper d
  | .email => { f with format := f.format.or (some "email") }.withExpression d
  | .pattern => f.withExpression d
  | _ => f

end Facets

namespace Schema

/-- The schema with the constraints among some directives, in their order. -/
def constrained (s : Schema) (target : ConstraintTarget) (ds : Directives) : Schema :=
  { s with facets := ds.constraints.foldl (fun f e => f.constrain target e.1 e.2) s.facets }

/-- The schema with the directives that are attached to one use of a type. -/
def used (s : Schema) (target : ConstraintTarget) (ds : Directives) : Schema :=
  let s := s.constrained target ds
  if ds.has .nullable then s.setNullable else s

end Schema

end Schemata
