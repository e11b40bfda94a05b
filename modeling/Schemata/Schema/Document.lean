import Schemata.Schema.Basic
import Schemata.Json.Printer
import Schemata.Schema.Keyword

/-!
# Schemas as JSON documents

Keywords are written in their fixed order, what is absent or empty is left out, and the
extensions follow.  The registered name is never written.
-/
namespace Schemata

/-- Integral bounds are written as integers when they are below 2 ^ 63. -/
def Double.boundJson (x : Double) : Json :=
  match x.toInt? with
  | some i => if i.natAbs < Nat.pow 2 63 then .num (.int i) else Json.ofDouble x
  | none => Json.ofDouble x

def Discriminator.toJson (d : Discriminator) : Json :=
  .obj (("propertyName", .str d.propertyName) ::
    if d.mapping.isEmpty then []
    else [("mapping", .obj (d.mapping.map fun pair => (pair.1, .str pair.2)))])

def ExternalDocs.toJson (d : ExternalDocs) : Json :=
  .obj ((d.description.map fun text => ("description", Json.str text)).toList
    ++ [("url", .str d.url)])

namespace Schema

/-- A member for a value that is there. -/
def member (k : Keyword) (value : Option Json) : List (String × Json) :=
  (value.map (k.name, ·)).toList

/-- A member for a list that is not empty. -/
def listMember (k : Keyword) (items : List Json) : List (String × Json) :=
  if items.isEmpty then [] else [(k.name, .arr items)]

mutual

def toJson : Schema → Json
  | ⟨_, ref, type, labels, facets, items, properties, required, additional, allOf, oneOf,
      anyOf, not⟩ =>
    .obj (member .ref (ref.map .str)
      ++ member .type (type.map (.str ·.name))
      ++ member .format (facets.format.map .str)
      ++ member .title (labels.title.map .str)
      ++ member .description (labels.description.map .str)
      ++ member .nullable (labels.nullable.map .bool)
      ++ member .deprecated (labels.deprecated.map .bool)
      ++ member .readOnly (facets.readOnly.map .bool)
      ++ member .writeOnly (facets.writeOnly.map .bool)
      ++ member .defaultValue facets.defaultValue
      ++ member .exampleValue facets.exampleValue
      ++ member .examples (facets.examples.map .arr)
      ++ member .enumValues (facets.enumValues.map .arr)
      ++ member .multipleOf (facets.multipleOf.map Double.boundJson)
      ++ member .minimum (facets.minimum.map Double.boundJson)
      ++ member .exclusiveMinimum (facets.exclusiveMinimum.map .bool)
      ++ member .maximum (facets.maximum.map Double.boundJson)
      ++ member .exclusiveMaximum (facets.exclusiveMaximum.map .bool)
      ++ member .minLength (facets.minLength.map Json.ofNat)
      ++ member .maxLength (facets.maxLength.map Json.ofNat)
      ++ member .pattern (facets.pattern.map .str)
      ++ member .items (optionToJson items)
      ++ member .minItems (facets.minItems.map Json.ofNat)
      ++ member .maxItems (facets.maxItems.map Json.ofNat)
      ++ member .uniqueItems (facets.uniqueItems.map .bool)
      ++ (if properties.isEmpty then []
          else [(Keyword.properties.name, .obj (propertiesToJson properties))])
      ++ listMember .required (required.map .str)
      ++ member .additional (additionalToJson additional)
      ++ member .minProperties (facets.minProperties.map Json.ofNat)
      ++ member .maxProperties (facets.maxProperties.map Json.ofNat)
      ++ listMember .allOf (listToJson allOf)
      ++ listMember .oneOf (listToJson oneOf)
      ++ listMember .anyOf (listToJson anyOf)
      ++ member .not (optionToJson not)
      ++ member .discriminator (facets.discriminator.map Discriminator.toJson)
      ++ member .externalDocs (labels.externalDocs.map ExternalDocs.toJson)
      ++ facets.extensions)

def optionToJson : Option Schema → Option Json
  | none => none
  | some s => some (toJson s)

def listToJson : List Schema → List Json
  | [] => []
  | s :: rest => toJson s :: listToJson rest

def propertiesToJson : List (String × Schema) → List (String × Json)
  | [] => []
  | (name, s) :: rest => (name, toJson s) :: propertiesToJson rest

def additionalToJson : Option (Additional Schema) → Option Json
  | none => none
  | some (.allowed any) => some (.bool any)
  | some (.schema s) => some (toJson s)

end

/-- The document as text. -/
def text (s : Schema) : String := s.toJson.compact

end Schema

end Schemata
