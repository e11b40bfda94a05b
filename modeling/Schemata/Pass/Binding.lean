import Schemata.Pass.Constraints
import Schemata.Pass.Overlay

/-!
# Binding the directives of an element

The directives of an element are laid over the schema of its type.  A reference is never
changed: the directives build a schema of their own, and the two are composed unless all that
it says is decoration.  That null is admitted is said of the outermost node.
-/
namespace Schemata

namespace Element

/-- What constraints of the element count: items, if its schema or its type is a container. -/
def constraintTarget (env : Environment) (r : Registry) (t : TypeRef) (derived : Schema) :
    ConstraintTarget :=
  let shape := if derived.isRef then r.resolve? derived else some derived
  if shape.any (fun s => s.isArray || s.isMap) || env.types.isContainer (t.unwrapped env.types)
  then .container else .value

/-- Whether null is admitted: the schema directive decides before what was found. -/
def admitsNull (e : Element) (found : Bool) : Bool :=
  ((e.directive? .schema).bind (Directive.flag? · "nullable")).getD found

end Element

namespace Schema

def nullableIf (s : Schema) (nullable : Bool) : Schema :=
  if nullable then s.setNullable else s

/-- The labels that an overlay contributes to the node around it. -/
def outerLabels (s : Schema) (e : Element) (nullable : Bool) : Labels where
  description := s.labels.description.or e.description?
  deprecated :=
    if s.labels.deprecated = some true || e.has .deprecated then some true else none
  nullable := if nullable then some true else none
  externalDocs := s.labels.externalDocs

/-- Whether the overlay says no more of its type than that it is an object. -/
def isPlainObject (s : Schema) : Bool := s.isObject && !s.isMap

/-- The part of an overlay that stands beside the reference. -/
def innerPart (s : Schema) : Schema :=
  { s with
    type := if s.isPlainObject then none else s.type
    labels := { title := s.labels.title } }

/-- A reference with an overlay: both are composed if the overlay has structure. -/
def compose (reference s : Schema) (e : Element) (nullable : Bool) : Schema :=
  if !s.hasStructure || s.innerPart.isEmpty then reference.nullableIf nullable
  else
    { type := if s.isPlainObject then some .object else none
      labels := s.outerLabels e nullable
      allOf := [reference, s.innerPart] }

end Schema

namespace Compiler

/-- Lays the schema directive of an element over a schema. -/
def overlayStated (c : Compiler) (env : Environment) (s : Schema) (e : Element) (t : TypeRef) :
    PassM Schema :=
  match e.directive? .schema with
  | some d => c.overlay env s d (some e) t
  | none => pure s

/-- Lays the array directive of an element over a schema. -/
def overlayStatedArray (c : Compiler) (env : Environment) (s : Schema) (e : Element)
    (t : TypeRef) : PassM Schema :=
  match e.directive? .arraySchema with
  | some d => c.overlayArray env s d t
  | none => pure s

/-- Lays all directives of an element over a schema, its defaults last. -/
def overlayAll (c : Compiler) (env : Environment) (s : Schema) (e : Element) (t : TypeRef)
    (target : ConstraintTarget) (fallback : List Schema) : PassM Schema := do
  let s ← c.overlayStated env s e t
  let s ← c.overlayStatedArray env s e t
  let s := s.constrained target e.directives
  let l := literalType env.types (← get).registry (s :: fallback) t
  let value ← Pass.noting (e.default? l s.facets.defaultValue)
  pure { s with facets.defaultValue := value }

/-- Binds the directives of an element to the schema of its type. -/
def bind (c : Compiler) (env : Environment) (e : Element) (t : TypeRef) (derived : Schema)
    (nullable : Bool) : PassM Schema := do
  let target := Element.constraintTarget env (← get).registry t derived
  let nullable := e.admitsNull nullable
  if derived.isRef then
    let s ← c.overlayAll env {} e t target [derived]
    pure (derived.compose s e nullable)
  else
    let s ← c.overlayAll env derived e t target []
    let deprecated := if e.has .deprecated then some true else s.labels.deprecated
    pure ({ s with labels.deprecated := deprecated }.nullableIf nullable)

end Compiler

end Schemata
