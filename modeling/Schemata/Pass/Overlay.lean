import Schemata.Pass.Compiler
import Schemata.Pass.Literals

/-!
# Schema directives

A schema directive sets labels and facets, lists literals, and names further types.  Labels,
facets and literals depend on the directive and the schema alone; the types that it names
are compiled.
-/
namespace Schemata

namespace Directive

/-- A flag that can be raised and never lowered. -/
def raised (d : Directive) (key : String) (old : Option Bool) : Option Bool :=
  if d.flag? key = some true then some true else old

end Directive

/-- The documentation that a directive points to. -/
def ExternalDocs.ofDirective? (d : Directive) : Option ExternalDocs :=
  (d.text? "url").map fun url => ⟨d.text? "description", url⟩

/-- Only outside of declarations does the directive itself say that null is admitted. -/
def Labels.overlaid (l : Labels) (d : Directive) (detached : Bool) : Labels where
  title := (d.text? "title").or l.title
  description := (d.text? "description").or l.description
  nullable := if detached then d.raised "nullable" l.nullable else l.nullable
  deprecated := d.raised "deprecated" l.deprecated
  externalDocs := ((d.section? "externalDocs").bind ExternalDocs.ofDirective?).or l.externalDocs

def Facets.overlaid (f : Facets) (d : Directive) : Facets :=
  { f with
    format := (d.text? "format").or f.format
    multipleOf := (d.number? "multipleOf").or f.multipleOf
    minimum := (d.number? "minimum").or f.minimum
    maximum := (d.number? "maximum").or f.maximum
    exclusiveMinimum := d.raised "exclusiveMinimum" f.exclusiveMinimum
    exclusiveMaximum := d.raised "exclusiveMaximum" f.exclusiveMaximum
    minLength := (d.count? "minLength").or f.minLength
    maxLength := (d.count? "maxLength").or f.maxLength
    pattern := (d.text? "pattern").or f.pattern
    minProperties := (d.count? "minProperties").or f.minProperties
    maxProperties := (d.count? "maxProperties").or f.maxProperties
    readOnly := d.raised "readOnly" f.readOnly
    writeOnly := d.raised "writeOnly" f.writeOnly }

/-- Listed values, examples and the default, read against a type. -/
def Facets.withLiterals (f : Facets) (d : Directive) (l : LiteralType) (subject : String) :
    Facets × Diagnostics :=
  let (enumValues, first) := match d.get? "enum" with
    | some (.arr items) =>
      let (values, ds) := l.literals subject items
      (values.or f.enumValues, ds)
    | some (.str raw) =>
      let (value, ds) := l.literal subject (.str raw)
      (value.map ([·]), ds)
    | _ => (f.enumValues, [])
  let single (key : String) (old : Option Json) : Option Json × Diagnostics :=
    match d.get? key with
    | some value =>
      let (read, ds) := l.literal subject value
      (read.or old, ds)
    | none => (old, [])
  let (exampleValue, second) := single "example" f.exampleValue
  let (examples, third) := match d.get? "examples" with
    | some (.arr items) =>
      let (values, ds) := l.literals subject items
      (values.or f.examples, ds)
    | _ => (f.examples, [])
  let (defaultValue, fourth) := single "default" f.defaultValue
  ({ f with
      enumValues := enumValues
      exampleValue := exampleValue
      examples := examples
      defaultValue := defaultValue },
    first ++ second ++ third ++ fourth)

namespace Schema

/-- The type that the directive states; any other text is reported. -/
def overlaidType (s : Schema) (d : Directive) (subject : String) :
    Option SchemaType × Diagnostics :=
  match d.text? "type" with
  | none => (s.type, [])
  | some text =>
    match SchemaType.read text with
    | .ok type => (some type, [])
    | .error e => (s.type, [Compiler.invalidValue subject e.message])

/-- Everything that the directive says without naming another type or a literal. -/
def overlaid (s : Schema) (d : Directive) (detached : Bool) (subject : String) :
    Schema × Diagnostics :=
  let (type, ds) := s.overlaidType d subject
  ({ s with
      ref := (d.text? "$ref").or s.ref
      type := type
      labels := s.labels.overlaid d detached
      facets := s.facets.overlaid d
      required := (d.texts "requiredProperties").foldl
        (fun names name => if names.contains name then names else names ++ [name]) s.required },
    ds)

/-- The schema with the literals of a directive, which are read against its final type. -/
def withLiterals (env : Environment) (r : Registry) (s : Schema) (d : Directive)
    (subject : String) (t : TypeRef) : Schema × Diagnostics :=
  let (facets, ds) := s.facets.withLiterals d (literalType env.types r [s] t) subject
  ({ s with facets := facets }, ds)

end Schema

namespace Compiler

/-- References of named types by the value that selects them. -/
def mappedSchemas (c : Compiler) (subject : String) (entries : List (String × Json))
    (mapping : Assoc String String) : PassM (Assoc String String) :=
  entries.foldlM
    (fun mapping entry => do
      match entry.2.asStr? with
      | none => pure mapping
      | some text =>
        match (← c.named? subject text).bind Schema.ref with
        | some path => pure (mapping.insert entry.1 path)
        | none => pure mapping)
    mapping

/-- The texts of a map, by key. -/
def mappedRefs (entries : List (String × Json)) : Assoc String String :=
  Assoc.ofList (entries.filterMap fun entry => entry.2.asStr?.map (entry.1, ·))

/-- The discriminator of a directive, which has to name a property. -/
def discriminator? (c : Compiler) (subject : String) (d : Directive) :
    PassM (Option Discriminator) := do
  match d.text? "propertyName" with
  | none =>
    Pass.report [invalidValue subject "Discriminator without a property name; ignoring it"]
    pure none
  | some property =>
    let refs := mappedRefs ((d.section? "mapping").getD [])
    let mapping ← c.mappedSchemas subject ((d.section? "mappingSchemas").getD []) refs
    pure (some ⟨property, mapping⟩)

def withDiscriminator (c : Compiler) (s : Schema) (d : Directive) (subject : String) :
    PassM Schema := do
  match d.section? "discriminator" with
  | none => pure s
  | some inner =>
    let found ← c.discriminator? subject inner
    pure { s with facets.discriminator := found.or s.facets.discriminator }

def withExtensions (s : Schema) (d : Directive) : Schema :=
  let extensions := (d.section? "extensions").getD []
  { s with
    facets.extensions :=
      extensions.foldl (fun m e => Assoc.insert m e.1 e.2) s.facets.extensions }

def withAdditional (c : Compiler) (s : Schema) (d : Directive) (subject : String) :
    PassM Schema := do
  match d.get? "additionalProperties" with
  | some (.bool any) => pure { s with additional := some (.allowed any) }
  | some (.str text) =>
    match ← c.named? subject text with
    | some value => pure { s with additional := some (.schema value) }
    | none => pure s
  | _ => pure s

def withNot (c : Compiler) (s : Schema) (d : Directive) (subject : String) : PassM Schema := do
  match d.text? "not" with
  | none => pure s
  | some text =>
    let found ← c.named? subject text
    pure { s with not := found.or s.not }

/-- The alternatives that a directive names. -/
def withAlternatives (c : Compiler) (s : Schema) (d : Directive) (subject : String) :
    PassM Schema := do
  let all ← c.allNamed subject (d.texts "allOf")
  let any ← c.allNamed subject (d.texts "anyOf")
  let one ← c.allNamed subject (d.texts "oneOf")
  pure
    { s with
      allOf := all.foldl Schema.pushNew s.allOf
      anyOf := any.foldl Schema.pushNew s.anyOf
      oneOf := one.foldl Schema.pushNew s.oneOf }

/-- Lays a schema directive over a schema. -/
def overlay (c : Compiler) (env : Environment) (s : Schema) (d : Directive)
    (element : Option Element) (t : TypeRef) : PassM Schema := do
  let subject := subjectOf element t
  let detached := !(element.any Element.isMember)
  let s ← Pass.noting (s.overlaid d detached subject)
  let s ← Pass.noting (s.withLiterals env (← get).registry d subject t)
  let s ← c.withDiscriminator s d subject
  let s ← c.withAdditional (withExtensions s d) d subject
  let s ← c.withNot s d subject
  c.withAlternatives s d subject

/-- What an array directive says of the items: a type in their place, or a schema directive
that is laid over them. -/
def overlayItems (c : Compiler) (env : Environment) (s : Schema) (items : Directive)
    (t : TypeRef) : PassM Schema := do
  match items.text? "implementation" with
  | some text =>
    let found ← c.named? t.display text
    pure { s with items := found.or s.items }
  | none =>
    match s.items with
    | none => pure s
    | some current =>
      let changed ← c.overlay env current items none (env.types.itemType t)
      pure { s with items := some changed }

/-- Lays an array directive over a schema. -/
def overlayArray (c : Compiler) (env : Environment) (s : Schema) (d : Directive) (t : TypeRef) :
    PassM Schema := do
  let s ← c.overlay env s d none t
  let s : Schema :=
    { s with
      facets.minItems := (d.count? "minItems").or s.facets.minItems
      facets.maxItems := (d.count? "maxItems").or s.facets.maxItems
      facets.uniqueItems := d.raised "uniqueItems" s.facets.uniqueItems }
  match d.section? "items" with
  | none => pure s
  | some items => c.overlayItems env s items t

end Compiler

end Schemata
