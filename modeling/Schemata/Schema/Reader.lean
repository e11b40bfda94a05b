import Schemata.Json.Decode
import Schemata.Schema.Basic
import Schemata.Schema.Keyword

/-!
# Reading schema documents

Each member of the object sets one keyword; members with any other key are extensions.  A
keyword that is set to null counts as absent where it is optional, and is refused where an
empty list or object means absence.
-/
namespace Schemata

def Discriminator.ofJson? (value : Json) : Option Discriminator := do
  match ← Json.recordFields? ["propertyName", "mapping"] value with
  | [propertyName, mapping] =>
    pure ⟨← Json.required? Json.str? propertyName,
      ← Json.defaulted? [] (Json.map? Json.str?) mapping⟩
  | _ => none

def ExternalDocs.ofJson? (value : Json) : Option ExternalDocs := do
  match ← Json.recordFields? ["description", "url"] value with
  | [description, url] =>
    pure ⟨← Json.optional? Json.str? description, ← Json.required? Json.str? url⟩
  | _ => none

namespace Schema

/-- Reads a value that may be null. -/
def orNull (read : Json → Option α) : Json → Option (Option α)
  | .null => some none
  | value => (read value).map some

/-- Sets a keyword whose value holds no schema; none for a value of another shape, and for
the keywords of the parts. -/
def setLeaf? (s : Schema) (k : Keyword) (value : Json) : Option Schema :=
  match k with
  | .ref => do let v ← orNull Json.str? value; pure { s with ref := v }
  | .type => do let v ← orNull (Json.named? SchemaType.ofName?) value; pure { s with type := v }
  | .format => do let v ← orNull Json.str? value; pure { s with facets.format := v }
  | .title => do let v ← orNull Json.str? value; pure { s with labels.title := v }
  | .description => do let v ← orNull Json.str? value; pure { s with labels.description := v }
  | .nullable => do let v ← orNull Json.bool? value; pure { s with labels.nullable := v }
  | .deprecated => do let v ← orNull Json.bool? value; pure { s with labels.deprecated := v }
  | .readOnly => do let v ← orNull Json.bool? value; pure { s with facets.readOnly := v }
  | .writeOnly => do let v ← orNull Json.bool? value; pure { s with facets.writeOnly := v }
  | .defaultValue => do let v ← orNull Json.any? value; pure { s with facets.defaultValue := v }
  | .exampleValue => do let v ← orNull Json.any? value; pure { s with facets.exampleValue := v }
  | .examples => do
    let v ← orNull (Json.list? Json.any?) value; pure { s with facets.examples := v }
  | .enumValues => do
    let v ← orNull (Json.list? Json.any?) value; pure { s with facets.enumValues := v }
  | .multipleOf => do let v ← orNull Json.double? value; pure { s with facets.multipleOf := v }
  | .minimum => do let v ← orNull Json.double? value; pure { s with facets.minimum := v }
  | .exclusiveMinimum => do
    let v ← orNull Json.bool? value; pure { s with facets.exclusiveMinimum := v }
  | .maximum => do let v ← orNull Json.double? value; pure { s with facets.maximum := v }
  | .exclusiveMaximum => do
    let v ← orNull Json.bool? value; pure { s with facets.exclusiveMaximum := v }
  | .minLength => do let v ← orNull Json.unsigned? value; pure { s with facets.minLength := v }
  | .maxLength => do let v ← orNull Json.unsigned? value; pure { s with facets.maxLength := v }
  | .pattern => do let v ← orNull Json.str? value; pure { s with facets.pattern := v }
  | .minItems => do let v ← orNull Json.unsigned? value; pure { s with facets.minItems := v }
  | .maxItems => do let v ← orNull Json.unsigned? value; pure { s with facets.maxItems := v }
  | .uniqueItems => do let v ← orNull Json.bool? value; pure { s with facets.uniqueItems := v }
  | .minProperties => do
    let v ← orNull Json.unsigned? value; pure { s with facets.minProperties := v }
  | .maxProperties => do
    let v ← orNull Json.unsigned? value; pure { s with facets.maxProperties := v }
  | .required => do let v ← Json.list? Json.str? value; pure { s with required := v }
  | .discriminator => do
    let v ← orNull Discriminator.ofJson? value; pure { s with facets.discriminator := v }
  | .externalDocs => do
    let v ← orNull ExternalDocs.ofJson? value; pure { s with labels.externalDocs := v }
  | .items | .properties | .additional | .allOf | .oneOf | .anyOf | .not => none

/-- Whether a keyword stands twice in an object. -/
def repeatsKeyword (members : List (String × Json)) : Bool :=
  !Json.fieldsOnce (Keyword.all.map Keyword.name) members

mutual

/-- Reads the members of a schema object one after the other. -/
def readMembers : List (String × Json) → Schema → Option Schema
  | [], s => some s
  | (key, value) :: rest, s => do
    let next ←
      match Keyword.ofName? key with
      | none =>
        pure { s with facets.extensions := Assoc.insert s.facets.extensions key value.settle }
      | some .items => do let v ← readOption value; pure { s with items := v }
      | some .not => do let v ← readOption value; pure { s with not := v }
      | some .allOf => do let v ← readList value; pure { s with allOf := v }
      | some .oneOf => do let v ← readList value; pure { s with oneOf := v }
      | some .anyOf => do let v ← readList value; pure { s with anyOf := v }
      | some .properties => do
        let v ← readProperties value; pure { s with properties := v }
      | some .additional => do
        let v ← readAdditional value; pure { s with additional := v }
      | some k => setLeaf? s k value
    readMembers rest next

def ofJson? : Json → Option Schema
  | .obj members => if repeatsKeyword members then none else readMembers members {}
  | _ => none

def readOption : Json → Option (Option Schema)
  | .null => some none
  | .obj members =>
    if repeatsKeyword members then none else (readMembers members {}).map some
  | _ => none

def readAdditional : Json → Option (Option (Additional Schema))
  | .null => some none
  | .bool any => some (some (.allowed any))
  | .obj members =>
    if repeatsKeyword members then none
    else (readMembers members {}).map fun s => some (.schema s)
  | _ => none

def readList : Json → Option (List Schema)
  | .arr items => readItems items
  | _ => none

def readItems : List Json → Option (List Schema)
  | [] => some []
  | value :: rest => do
    let s ← ofJson? value
    let others ← readItems rest
    pure (s :: others)

def readProperties : Json → Option (List (String × Schema))
  | .obj members => (readNamed members).map Assoc.ofList
  | _ => none

def readNamed : List (String × Json) → Option (List (String × Schema))
  | [] => some []
  | (name, value) :: rest => do
    let s ← ofJson? value
    let others ← readNamed rest
    pure ((name, s) :: others)

end

end Schema

end Schemata
