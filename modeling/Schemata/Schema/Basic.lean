import Schemata.Json.Basic
import Schemata.Schema.Type
import Schemata.Text.Split

/-!
# Schemas

A schema is a reference, or a type with facets and with schemas below it.  Labels are what
may accompany a reference without changing its meaning: titles, docs, deprecation and
nullability.  Everything else is structure.
-/
namespace Schemata

structure ExternalDocs where
  description : Option String := none
  url : String
  deriving DecidableEq, Repr

structure Discriminator where
  propertyName : String
  mapping : Assoc String String := []
  deriving DecidableEq, Repr

def Discriminator.eqv (a b : Discriminator) : Bool :=
  a.propertyName == b.propertyName && Assoc.sameBy (· == ·) a.mapping b.mapping

/-- Decoration: it describes the value and restricts nothing but null. -/
structure Labels where
  title : Option String := none
  description : Option String := none
  nullable : Option Bool := none
  deprecated : Option Bool := none
  externalDocs : Option ExternalDocs := none
  deriving DecidableEq, Repr, Inhabited

/-- What is said of the value itself, apart from its type and its parts. -/
structure Facets where
  format : Option String := none
  readOnly : Option Bool := none
  writeOnly : Option Bool := none
  defaultValue : Option Json := none
  exampleValue : Option Json := none
  examples : Option (List Json) := none
  enumValues : Option (List Json) := none
  multipleOf : Option Double := none
  minimum : Option Double := none
  exclusiveMinimum : Option Bool := none
  maximum : Option Double := none
  exclusiveMaximum : Option Bool := none
  minLength : Option Nat := none
  maxLength : Option Nat := none
  pattern : Option String := none
  minItems : Option Nat := none
  maxItems : Option Nat := none
  uniqueItems : Option Bool := none
  minProperties : Option Nat := none
  maxProperties : Option Nat := none
  discriminator : Option Discriminator := none
  extensions : Assoc String Json := []
  deriving Repr, Inhabited

/-- What an object may hold besides its named properties. -/
inductive Additional (σ : Type) where
  | allowed (any : Bool)
  | schema (value : σ)
  deriving Repr

structure Schema where
  /-- The name under which the schema is registered; never written. -/
  name : Option String := none
  ref : Option String := none
  type : Option SchemaType := none
  labels : Labels := {}
  facets : Facets := {}
  items : Option Schema := none
  properties : List (String × Schema) := []
  required : List String := []
  additional : Option (Additional Schema) := none
  allOf : List Schema := []
  oneOf : List Schema := []
  anyOf : List Schema := []
  not : Option Schema := none
  deriving Repr, Inhabited

/-- Two optional values that are both missing or alike. -/
def sameOption (same : α → α → Bool) : Option α → Option α → Bool
  | none, none => true
  | some a, some b => same a b
  | _, _ => false

namespace Facets

def isEmpty (f : Facets) : Bool :=
  f.format.isNone && f.readOnly.isNone && f.writeOnly.isNone && f.defaultValue.isNone
    && f.exampleValue.isNone && f.examples.isNone && f.enumValues.isNone
    && f.multipleOf.isNone && f.minimum.isNone && f.exclusiveMinimum.isNone
    && f.maximum.isNone && f.exclusiveMaximum.isNone && f.minLength.isNone
    && f.maxLength.isNone && f.pattern.isNone && f.minItems.isNone && f.maxItems.isNone
    && f.uniqueItems.isNone && f.minProperties.isNone && f.maxProperties.isNone
    && f.discriminator.isNone && f.extensions.isEmpty

/-- Numbers are compared by value and objects whatever the order of their members. -/
def eqv (f g : Facets) : Bool :=
  f.format == g.format && f.readOnly == g.readOnly && f.writeOnly == g.writeOnly
    && f.defaultValue == g.defaultValue && f.exampleValue == g.exampleValue
    && f.examples == g.examples && f.enumValues == g.enumValues
    && sameOption Double.eqv f.multipleOf g.multipleOf
    && sameOption Double.eqv f.minimum g.minimum
    && f.exclusiveMinimum == g.exclusiveMinimum
    && sameOption Double.eqv f.maximum g.maximum
    && f.exclusiveMaximum == g.exclusiveMaximum
    && f.minLength == g.minLength && f.maxLength == g.maxLength && f.pattern == g.pattern
    && f.minItems == g.minItems && f.maxItems == g.maxItems
    && f.uniqueItems == g.uniqueItems && f.minProperties == g.minProperties
    && f.maxProperties == g.maxProperties
    && sameOption Discriminator.eqv f.discriminator g.discriminator
    && Assoc.sameBy (· == ·) f.extensions g.extensions

end Facets

def Labels.isEmpty (l : Labels) : Bool := l == {}

/-- Where the schemas of a document stand. -/
def componentsPath : String := "#/components/schemas/"

namespace Schema

def reference (name : String) : Schema := { ref := some (componentsPath ++ name) }

def typed (type : SchemaType) : Schema := { type := some type }

def object : Schema := typed .object

def array (items : Schema) : Schema := { type := some .array, items := some items }

def withFormat (s : Schema) (format : String) : Schema :=
  { s with facets.format := some format }

def withDescription (s : Schema) (description : String) : Schema :=
  { s with labels.description := some description }

def isRef (s : Schema) : Bool := s.ref.isSome

/-- The registered name that the reference points to. -/
def refName? (s : Schema) : Option String :=
  s.ref.bind fun path =>
    (Text.dropBeginning? componentsPath.toList path.toList).map String.ofList

/-- Whether the schema has neither schemas nor required names below it. -/
def isLeaf (s : Schema) : Bool :=
  s.items.isNone && s.properties.isEmpty && s.required.isEmpty && s.additional.isNone
    && s.allOf.isEmpty && s.oneOf.isEmpty && s.anyOf.isEmpty && s.not.isNone

/-- Whether anything is said besides the labels. -/
def hasStructure (s : Schema) : Bool :=
  !(s.ref.isNone && s.type.isNone && s.facets.isEmpty && s.isLeaf)

def isEmpty (s : Schema) : Bool := s.labels.isEmpty && !s.hasStructure

/-- A reference without anything beside it. -/
def isBareRef (s : Schema) : Bool :=
  s.isRef && s.labels.isEmpty && s.type.isNone && s.facets.isEmpty && s.isLeaf

def isObject (s : Schema) : Bool := s.type == some .object

def isArray (s : Schema) : Bool := s.type == some .array

def isMap (s : Schema) : Bool := s.additional.isSome

def setNullable (s : Schema) : Schema := { s with labels.nullable := some true }

mutual

/-- Equality of schemas, registered names included. -/
def eqv : Schema → Schema → Bool
  | ⟨name, ref, type, labels, facets, items, properties, required, additional, allOf, oneOf,
      anyOf, not⟩, other =>
    name == other.name && ref == other.ref && type == other.type && labels == other.labels
      && facets.eqv other.facets && eqvOption items other.items
      && properties.length == other.properties.length
      && eqvProperties properties other.properties && required == other.required
      && eqvAdditional additional other.additional && eqvList allOf other.allOf
      && eqvList oneOf other.oneOf && eqvList anyOf other.anyOf && eqvOption not other.not

def eqvOption : Option Schema → Option Schema → Bool
  | none, none => true
  | some s, some t => eqv s t
  | _, _ => false

def eqvList : List Schema → List Schema → Bool
  | [], [] => true
  | s :: ss, t :: ts => eqv s t && eqvList ss ts
  | _, _ => false

def eqvProperties : List (String × Schema) → List (String × Schema) → Bool
  | [], _ => true
  | (name, s) :: rest, others =>
    (match Assoc.get? others name with
      | some t => eqv s t
      | none => false) && eqvProperties rest others

def eqvAdditional : Option (Additional Schema) → Option (Additional Schema) → Bool
  | none, none => true
  | some (.allowed a), some (.allowed b) => a == b
  | some (.schema s), some (.schema t) => eqv s t
  | _, _ => false

end

/-- Whether an equal schema is in the list. -/
def memberOf (s : Schema) (list : List Schema) : Bool := list.any (·.eqv s)

/-- Adds a schema to a list of alternatives unless an equal one is there. -/
def pushNew (list : List Schema) (s : Schema) : List Schema :=
  if s.memberOf list then list else list ++ [s]

def addAllOf (s : Schema) (part : Schema) : Schema := { s with allOf := pushNew s.allOf part }

/-- Sets a property.  A required property is listed once. -/
def addProperty (s : Schema) (name : String) (value : Schema) (required : Bool) : Schema :=
  { s with
    properties := Assoc.insert s.properties name value
    required := if required && !s.required.contains name then s.required ++ [name]
      else s.required }

@[simp] theorem refName?_reference (name : String) : (reference name).refName? = some name := by
  have h : Text.dropBeginning? componentsPath.toList (componentsPath.toList ++ name.toList) =
      some name.toList := Text.dropBeginning?_eq_some_iff.mpr rfl
  simp only [refName?, reference, Option.bind_some, String.toList_append, h, Option.map_some,
    String.ofList_toList]

@[simp] theorem isRef_reference (name : String) : (reference name).isRef = true := rfl
@[simp] theorem isBareRef_reference (name : String) : (reference name).isBareRef = true := rfl
@[simp] theorem isEmpty_empty : ({} : Schema).isEmpty = true := rfl

theorem isEmpty_iff (s : Schema) :
    s.isEmpty = true ↔ s.labels.isEmpty = true ∧ s.hasStructure = false := by
  simp [isEmpty]

end Schema

end Schemata
