import Schemata.Text.Split

/-!
# Kinds of directives
-/
namespace Schemata

inductive DirectiveKind where
  | schema | arraySchema | hidden | ignore | backReference | anySetter | jsonProperty
  | nullable | nonNull | deprecated | bindable | jsonView | unwrapped | externalDocs | naming
  | stereotype
  | notNull | notEmpty | notBlank | size | min | max | decimalMin | decimalMax | negative
  | negativeOrZero | positive | positiveOrZero | email | pattern
  deriving DecidableEq, Repr, Inhabited

namespace DirectiveKind

/-- The validation constraints. -/
def constraints : List DirectiveKind :=
  [.notNull, .notEmpty, .notBlank, .size, .min, .max, .decimalMin, .decimalMax, .negative,
    .negativeOrZero, .positive, .positiveOrZero, .email, .pattern]

def all : List DirectiveKind :=
  [.schema, .arraySchema, .hidden, .ignore, .backReference, .anySetter, .jsonProperty,
    .nullable, .nonNull, .deprecated, .bindable, .jsonView, .unwrapped, .externalDocs, .naming,
    .stereotype] ++ constraints

def name : DirectiveKind → String
  | .schema => "schema"
  | .arraySchema => "array-schema"
  | .hidden => "hidden"
  | .ignore => "ignore"
  | .backReference => "back-reference"
  | .anySetter => "any-setter"
  | .jsonProperty => "json-property"
  | .nullable => "nullable"
  | .nonNull => "non-null"
  | .deprecated => "deprecated"
  | .bindable => "bindable"
  | .jsonView => "json-view"
  | .unwrapped => "unwrapped"
  | .externalDocs => "external-docs"
  | .naming => "naming"
  | .stereotype => "stereotype"
  | .notNull => "not-null"
  | .notEmpty => "not-empty"
  | .notBlank => "not-blank"
  | .size => "size"
  | .min => "min"
  | .max => "max"
  | .decimalMin => "decimal-min"
  | .decimalMax => "decimal-max"
  | .negative => "negative"
  | .negativeOrZero => "negative-or-zero"
  | .positive => "positive"
  | .positiveOrZero => "positive-or-zero"
  | .email => "email"
  | .pattern => "pattern"

def ofName? (name : String) : Option DirectiveKind := all.find? (·.name = name)

def isConstraint (kind : DirectiveKind) : Bool := constraints.contains kind

def capitalized : List Char → List Char
  | [] => []
  | c :: rest => c.toUpper :: rest

/-- The words of the name, each with a capital, run together. -/
def displayName (kind : DirectiveKind) : String :=
  String.ofList ((Text.splitOn (· = '-') kind.name.toList).flatMap capitalized)

theorem mem_all (kind : DirectiveKind) : kind ∈ all := by
  cases kind <;> decide

@[simp] theorem ofName?_name (kind : DirectiveKind) : ofName? kind.name = some kind := by
  cases kind <;> decide

end DirectiveKind

end Schemata
