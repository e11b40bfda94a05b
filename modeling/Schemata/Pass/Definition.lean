import Schemata.Pass.Members
import Schemata.Universe.Lineage

/-!
# Definitions

The schema of a declared type is built once, registered under its name and referred to from
then on.  While it is being built its name is in progress, and further mentions of the type
are references to the name.
-/
namespace Schemata

namespace Decl

/-- The name of a stereotype: of the element's if it has one, or else of the declaration's. -/
def stereotype? (d : Decl) (element : Option Element) : Option String :=
  ((element.bind (·.directive? .stereotype)).or (d.directives.get? .stereotype)).bind
    fun s => (s.text? "name").or s.value?

def nameRequest (d : Decl) (element : Option Element) (t : TypeRef) (scope : Scope) :
    NameRequest where
  type := t
  explicit := (d.directives.get? .schema).bind (Directive.text? · "name")
  stereotype := d.stereotype? element
  view := scope.view

/-- The literals of an enumeration under its type. -/
def enumSchema (u : Universe) (d : Decl) : Schema × Diagnostics :=
  let (type, format) := u.representationOfEnum d
  let (values, ds) := d.enumValues (some type) format
  ({ type := some type, facets := { format := format, enumValues := values } }, ds)

/-- The schema with what the declaration is documented to be. -/
def documented (d : Decl) (s : Schema) : Schema :=
  let docs := match d.directives.get? .externalDocs with
    | some directive => ExternalDocs.ofDirective? directive
    | none => s.labels.externalDocs
  { s with
    labels.externalDocs := docs
    labels.description := s.labels.description.or (Element.descriptionOf d.documentation) }

/-- The first reference to a collection describes it. -/
def definedReference (d : Decl) (name : String) (s : Schema) : Schema :=
  match d.kind with
  | .iterable =>
    { Schema.reference name with
      labels.description := (s.labels.externalDocs.bind ExternalDocs.description).or
        s.labels.description }
  | _ => .reference name

end Decl

namespace Schema

/-- Own properties of a composition become its last part. -/
def settled (s : Schema) : Schema :=
  if s.allOf.isEmpty then s
  else if s.properties.isEmpty then { s with type := some .object }
  else
    { s with
      type := some .object
      properties := []
      required := []
      allOf := s.allOf
        ++ [{ Schema.object with properties := s.properties, required := s.required }] }

/-- A schema that says nothing of its type is of the type of the occurrence. -/
def completed (u : Universe) (t : TypeRef) (s : Schema) : Schema :=
  if s.type.isNone && s.allOf.isEmpty && !s.isRef then
    let (type, format) := u.representation t
    { s with type := some type, facets.format := s.facets.format.or format }
  else s

end Schema

namespace Compiler

/-- An ancestor that cannot be represented is left out of the composition. -/
def addAncestor (c : Compiler) (scope : Scope) (s : Schema) (t : TypeRef) : PassM Schema := do
  match ← c.define none t scope with
  | some reference => pure (s.addAllOf reference)
  | none => pure s

/-- What the members of a record are added to: an object, or a composition with its
ancestors. -/
def recordStart (c : Compiler) (env : Environment) (d : Decl) (bindings : Bindings)
    (scope : Scope) : PassM Schema :=
  if (env.types.composedParents d).isEmpty then pure .object
  else (env.types.lineage d bindings).foldlM (c.addAncestor scope) {}

def recordSchema (c : Compiler) (env : Environment) (d : Decl) (t : TypeRef) (scope : Scope) :
    PassM Schema := do
  let bindings := env.types.bindings t
  let start ← c.recordStart env d bindings scope
  let s ← c.addMembers env d bindings scope start
  pure s.settled

/-- The schema of a declaration without its own schema directive. -/
def declaredSchema (c : Compiler) (env : Environment) (d : Decl) (t : TypeRef) (scope : Scope) :
    PassM Schema :=
  if d.kind = .enum then Pass.noting (d.enumSchema env.types) else c.recordSchema env d t scope

/-- Lays the schema directive of a declaration over its schema. -/
def overlayOwn (c : Compiler) (env : Environment) (d : Decl) (t : TypeRef) (s : Schema) :
    PassM Schema := do
  match d.directives.get? .schema with
  | none => pure s
  | some directive =>
    let s ← c.overlay env s directive none t
    pure (s.completed env.types t)

/-- The schema of a declaration, its own schema directive included. -/
def build (c : Compiler) (env : Environment) (d : Decl) (t : TypeRef) (scope : Scope) :
    PassM Schema := do
  let s ← c.declaredSchema env d t scope
  c.overlayOwn env d t s

/-- The reference to a declared type, which is defined if it is not known yet. -/
def defined (c : Compiler) (env : Environment) (element : Option Element) (t : TypeRef)
    (scope : Scope) : PassM (Option Schema) := do
  match env.types.declOf? t with
  | none =>
    let name := t.name?.getD ""
    Pass.report [.unknownType t.display name (env.types.suggest name)]
    pure none
  | some d =>
    let name ← Pass.assignName env (d.nameRequest element t scope)
    if (← get).isKnown name then pure (some (.reference name))
    else
      let s ← Pass.defining name (c.build env d t scope)
      let s := d.documented s
      Pass.register name s
      pure (some (d.definedReference name s))

end Compiler

end Schemata
