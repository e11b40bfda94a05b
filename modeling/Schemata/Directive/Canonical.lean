import Schemata.Directive.Basic
import Schemata.Json.Parser
import Schemata.Schema.Basic

/-!
# Canonical directives

Directives are written in several ways and are brought into one form when their element is
declared.  A handler is a pure transformation of one directive; the table of handlers is
open, and a kind without a handler passes unchanged.
-/
namespace Schemata

abbrev DirectiveHandler := Directive → Directive

namespace Canonical

/-- A text between braces or brackets is read as JSON if it is JSON. -/
def structured : Json → Json
  | .str text =>
    let body := Text.trim text.toList
    let enclosed (opening closing : Char) : Bool :=
      body.head? = some opening && body.getLast? = some closing
    if enclosed '{' '}' || enclosed '[' ']' then
      match Json.parse (String.ofList body) with
      | .ok value => value
      | .error _ => .str text
    else .str text
  | value => value

/-- A bare name means a schema of the document. -/
def expandRef (reference : String) : String :=
  if reference.toList.contains '/' then reference else componentsPath ++ reference

def extensionKey (name : String) : String :=
  if (Text.dropBeginning? "x-".toList name.toList).isSome then name else "x-" ++ name

/-- The value of one property of a group; its text is read as JSON on demand. -/
def extensionValue (property : List (String × Json)) : Json :=
  let value := (Assoc.get? property "value").getD .null
  let parse := ((Assoc.get? property "parseValue").bind Json.asBool?).getD false
  match value with
  | .str text =>
    if parse then
      match Json.parse text with
      | .ok parsed => parsed
      | .error _ => value
    else value
  | _ => value

/-- The named properties of a group. -/
def groupProperties (group : List (String × Json)) : List (String × Json) :=
  (((Assoc.get? group "properties").bind Json.asArr?).getD []).filterMap fun property => do
    let members ← property.asObj?
    let name ← (Assoc.get? members "name").bind Json.asStr?
    pure (name, extensionValue members)

/-- The properties of a group without a name are extensions of their own, those of a named
group are gathered in one. -/
def addGroup (out : Assoc String Json) (group : List (String × Json)) : Assoc String Json :=
  let name := ((Assoc.get? group "name").bind Json.asStr?).getD ""
  let properties := groupProperties group
  if name = "" then
    properties.foldl (fun m p => Assoc.insert m (extensionKey p.1) p.2) out
  else if properties.isEmpty then out
  else Assoc.insert out (extensionKey name) (.obj (Assoc.ofList properties))

/-- Extensions are a map, or a list of groups. -/
def extensions : Json → Json
  | .obj members => .obj (Assoc.ofList (members.map fun m => (extensionKey m.1, m.2)))
  | .arr groups => .obj ((groups.filterMap Json.asObj?).foldl addGroup [])
  | other => other

/-- References and named types of a discriminator, by the value that selects them. -/
structure Mapping where
  refs : Assoc String Json := []
  schemas : Assoc String Json := []

def Mapping.add (m : Mapping) (entry : List (String × Json)) : Mapping :=
  match (Assoc.get? entry "value").bind Json.asStr? with
  | none => m
  | some value =>
    match ((Assoc.get? entry "ref").bind Json.asStr?).filter (· ≠ "") with
    | some reference => { m with refs := m.refs.insert value (.str (expandRef reference)) }
    | none =>
      match (Assoc.get? entry "schema").bind Json.asStr? with
      | some schema => { m with schemas := m.schemas.insert value (.str schema) }
      | none => m

/-- The property and the mapping of a discriminator become one entry. -/
def discriminator (d : Directive) : Directive :=
  let property := d.get? "discriminatorProperty"
  let mapping := d.get? "discriminatorMapping"
  let d := (d.erase "discriminatorProperty").erase "discriminatorMapping"
  let named := match property with
    | some (.str name) => if name = "" then [] else [("propertyName", Json.str name)]
    | _ => []
  let entries := match mapping with
    | some (.arr entries) => entries.filterMap Json.asObj?
    | _ => []
  let m := entries.foldl Mapping.add {}
  let refs := if m.refs.isEmpty then [] else [("mapping", Json.obj m.refs)]
  let schemas := if m.schemas.isEmpty then [] else [("mappingSchemas", Json.obj m.schemas)]
  match named ++ refs ++ schemas with
  | [] => d
  | members => d.insert "discriminator" (.obj members)

/-- Takes a key away and puts back what becomes of its value, if anything does. -/
def replace (d : Directive) (key : String) (f : Json → Option (String × Json)) : Directive :=
  match d.get? key with
  | none => d
  | some value =>
    match f value with
    | some (newKey, newValue) => (d.erase key).insert newKey newValue
    | none => d.erase key

def reference : Json → Option (String × Json)
  | .str text => if text = "" then none else some ("$ref", .str (expandRef text))
  | _ => none

def accessMode (mode : Json) : Option (String × Json) :=
  if mode.asStr? = some "READ_ONLY" then some ("readOnly", .bool true)
  else if mode.asStr? = some "WRITE_ONLY" then some ("writeOnly", .bool true)
  else none

/-- Any further properties may be allowed by text; that they are forbidden is not stated. -/
def additional : Json → Option (String × Json)
  | .str text =>
    match Directive.truth? text with
    | some true => some ("additionalProperties", .bool true)
    | some false => none
    | none => some ("additionalProperties", .str text)
  | other => some ("additionalProperties", other)

def schema (d : Directive) : Directive :=
  let d := replace d "ref" reference
  let d := Directive.rename d "defaultValue" "default"
  let d := Directive.rename d "allowableValues" "enum"
  let d := replace d "accessMode" accessMode
  let d := replace d "additionalProperties" additional
  let d := discriminator d
  let d := replace d "extensions" fun value => some ("extensions", extensions value)
  let d := replace d "example" fun value => some ("example", structured value)
  replace d "default" fun value => some ("default", structured value)

/-- The description of the array joins the directive, that of its items stands below it. -/
def arraySchema (d : Directive) : Directive :=
  let array := match d.get? "arraySchema" with
    | some (.obj members) => schema members
    | _ => []
  let d := d.erase "arraySchema"
  let d := (array.filter (·.1 ≠ "implementation")).foldl (fun m e => m.insertNew e.1 e.2) d
  match d.get? "schema" with
  | some (.obj members) =>
    let items := schema members
    if items.isEmpty then d.erase "schema" else (d.erase "schema").insert "items" (.obj items)
  | _ => d.erase "schema"

def jsonProperty (d : Directive) : Directive :=
  let trimmed : Directive := d.modify "value" fun
    | .str text => .str (Text.trimmed text)
    | value => value
  trimmed.rename "defaultValue" "default"

def bindable (d : Directive) : Directive := d.rename "defaultValue" "default"

def jsonView (d : Directive) : Directive := [("value", Json.ofStrings (d.texts "value"))]

def unwrapped (d : Directive) : Directive :=
  [("prefix", .str ((d.text? "prefix").getD "")), ("suffix", .str ((d.text? "suffix").getD "")),
    ("enabled", .bool ((d.flag? "enabled").getD true))]

def expression (d : Directive) : Directive :=
  if d.contains "regexp" then d else d.rename "value" "regexp"

/-- A bound may be written as text. -/
def bound (d : Directive) : Directive :=
  match d.get? "value" with
  | some (.str text) =>
    match (Double.ofText? (Text.trim text.toList)).filter Double.isFinite with
    | some number => d.insert "value" (.num (.double number))
    | none => d
  | _ => d

def size (d : Directive) : Directive :=
  let limit (key : String) : Directive := ((d.count? key).map (key, Json.ofNat ·)).toList
  limit "min" ++ limit "max"

end Canonical

/-- The handlers by kind. -/
structure Normalizer where
  handlers : Assoc DirectiveKind DirectiveHandler

namespace Normalizer

def standard : Normalizer where
  handlers := [(.schema, Canonical.schema), (.arraySchema, Canonical.arraySchema),
    (.jsonProperty, Canonical.jsonProperty), (.bindable, Canonical.bindable),
    (.jsonView, Canonical.jsonView), (.unwrapped, Canonical.unwrapped),
    (.email, Canonical.expression), (.pattern, Canonical.expression),
    (.min, Canonical.bound), (.max, Canonical.bound), (.decimalMin, Canonical.bound),
    (.decimalMax, Canonical.bound), (.size, Canonical.size)]

/-- A handler takes the place of the former one. -/
def register (n : Normalizer) (kind : DirectiveKind) (handler : DirectiveHandler) : Normalizer :=
  ⟨n.handlers.insert kind handler⟩

def normalize (n : Normalizer) (kind : DirectiveKind) (d : Directive) : Directive :=
  match n.handlers.get? kind with
  | some handler => handler d
  | none => d

def normalizeAll (n : Normalizer) (ds : Directives) : Directives :=
  ds.map fun entry => (entry.1, n.normalize entry.1 entry.2)

@[simp] theorem normalizeAll_nil (n : Normalizer) : n.normalizeAll [] = [] := rfl

end Normalizer

end Schemata
