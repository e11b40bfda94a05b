/-!
# Keywords of a schema document

The keywords in the order in which they are written.  Every other member of a schema
object is an extension.
-/
namespace Schemata

inductive Keyword where
  | ref | type | format | title | description | nullable | deprecated | readOnly | writeOnly
  | defaultValue | exampleValue | examples | enumValues | multipleOf | minimum
  | exclusiveMinimum | maximum | exclusiveMaximum | minLength | maxLength | pattern | items
  | minItems | maxItems | uniqueItems | properties | required | additional | minProperties
  | maxProperties | allOf | oneOf | anyOf | not | discriminator | externalDocs
  deriving DecidableEq, Repr

namespace Keyword

def all : List Keyword :=
  [.ref, .type, .format, .title, .description, .nullable, .deprecated, .readOnly, .writeOnly,
    .defaultValue, .exampleValue, .examples, .enumValues, .multipleOf, .minimum,
    .exclusiveMinimum, .maximum, .exclusiveMaximum, .minLength, .maxLength, .pattern, .items,
    .minItems, .maxItems, .uniqueItems, .properties, .required, .additional, .minProperties,
    .maxProperties, .allOf, .oneOf, .anyOf, .not, .discriminator, .externalDocs]

def name : Keyword → String
  | .ref => "$ref"
  | .type => "type"
  | .format => "format"
  | .title => "title"
  | .description => "description"
  | .nullable => "nullable"
  | .deprecated => "deprecated"
  | .readOnly => "readOnly"
  | .writeOnly => "writeOnly"
  | .defaultValue => "default"
  | .exampleValue => "example"
  | .examples => "examples"
  | .enumValues => "enum"
  | .multipleOf => "multipleOf"
  | .minimum => "minimum"
  | .exclusiveMinimum => "exclusiveMinimum"
  | .maximum => "maximum"
  | .exclusiveMaximum => "exclusiveMaximum"
  | .minLength => "minLength"
  | .maxLength => "maxLength"
  | .pattern => "pattern"
  | .items => "items"
  | .minItems => "minItems"
  | .maxItems => "maxItems"
  | .uniqueItems => "uniqueItems"
  | .properties => "properties"
  | .required => "required"
  | .additional => "additionalProperties"
  | .minProperties => "minProperties"
  | .maxProperties => "maxProperties"
  | .allOf => "allOf"
  | .oneOf => "oneOf"
  | .anyOf => "anyOf"
  | .not => "not"
  | .discriminator => "discriminator"
  | .externalDocs => "externalDocs"

def ofName? (name : String) : Option Keyword := all.find? (·.name = name)

theorem mem_all (k : Keyword) : k ∈ all := by
  cases k <;> decide

@[simp] theorem ofName?_name (k : Keyword) : ofName? k.name = some k := by
  cases k <;> decide

end Keyword

end Schemata
