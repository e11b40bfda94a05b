import Schemata.Pass.Binding
import Schemata.PropertyNaming
import Schemata.Universe.Ancestry

/-!
# Members and properties

A member becomes a property unless it is static, too private, hidden or outside of the active
view.  It is required if a directive says so, or else if it excludes null or its constructor
demands it.  The properties of an unwrapped member take its place.
-/
namespace Schemata

namespace Member

/-- The views of a member, or else of its owner. -/
def views (m : Member) (owner : Decl) : List String :=
  match (m.directives.get? .jsonView).or (owner.directives.get? .jsonView) with
  | some d => d.texts "value"
  | none => []

/-- Whether the member belongs to the active view: to the view itself or one above it. -/
def inView (env : Environment) (owner : Decl) (m : Member) : Option String → Bool
  | none => true
  | some view =>
    match m.views owner with
    | [] => env.config.defaultInclusion
    | views => views.any (env.types.isAssignable view ·)

/-- Whether a bare field is exposed; properties always are. -/
def isExposed (env : Environment) (m : Member) : Bool :=
  m.kind != .field || env.config.fieldVisibility.allows m.visibility

/-- Whether the member becomes a property under a view. -/
def isVisible (env : Environment) (owner : Decl) (m : Member) (view : Option String) : Bool :=
  !m.isStatic && m.isExposed env && !m.directives.isHidden && m.inView env owner view

/-- Directives that exclude null. -/
def nonNullMarkers : List DirectiveKind := [.notNull, .notBlank, .notEmpty, .nonNull]

def excludesNull (m : Member) : Bool :=
  nonNullMarkers.any m.directives.has || m.nullable == some false
    || (m.directives.get? .jsonProperty).bind (Directive.flag? · "required") == some true

/-- Whether the member admits null, given what its type says. -/
def includesNull (m : Member) (found : Bool) : Bool :=
  found || m.nullable == some true || m.directives.has .nullable

/-- Whether a schema directive makes the member required, if it says anything about it. -/
def statedRequired? (m : Member) : Option Bool := do
  let d ← m.directives.get? .schema
  (d.flag? "required").or
    (match d.text? "requiredMode" with
      | some "REQUIRED" => some true
      | some "NOT_REQUIRED" => some false
      | _ => none)

def isRequired (m : Member) (owner : Decl) (found : Bool) : Bool :=
  m.statedRequired?.getD
    (m.excludesNull || (owner.isMandatory m.name && !m.includesNull found))

/-- The name that a directive gives to the property. -/
def statedName? (m : Member) : Option String :=
  ((m.directives.get? .schema).bind (Directive.text? · "name")).or
    ((m.directives.get? .jsonProperty).bind Directive.value?)

/-- The naming strategy that a declaration asks for. -/
def strategyOf (owner : Decl) : Option String :=
  (owner.directives.get? .naming).bind fun d => d.value?.or (d.text? "strategy")

/-- The name of the property: the stated one, or the translated name of the member. -/
def propertyName (m : Member) (owner : Decl) : String × Diagnostics :=
  match m.statedName? with
  | some name => (name, [])
  | none =>
    match (strategyOf owner).map PropertyNaming.read with
    | none => (m.name, [])
    | some (.ok naming) => (naming.translate m.name, [])
    | some (.error e) => (m.name, [Compiler.invalidValue owner.name e.message])

/-- The directive by which the properties of the member take its place. -/
def unwrapping? (m : Member) : Option Directive :=
  (m.directives.get? .unwrapped).filter fun d => (d.flag? "enabled").getD true

end Member

/-- A property, and whether it is required. -/
structure Property where
  name : String
  schema : Schema
  required : Bool

namespace Schema

def ownProperties (properties : List (String × Schema)) (required : List String) :
    List Property :=
  properties.map fun p => ⟨p.1, p.2, required.contains p.1⟩

/-- The properties behind a reference, and the references met so far. -/
abbrev Follow := String → List String → List Property × List String

mutual

/-- The properties of a composition, those of its parts first. -/
def propertiesWith (follow : Follow) : Schema → List String → List Property × List String
  | ⟨_, ref, _, _, _, _, properties, required, _, allOf, _, _, _⟩, seen =>
    match ref with
    | some path =>
      match ({ ref := some path } : Schema).refName? with
      | some name => follow name seen
      | none => ([], seen)
    | none =>
      let (parts, seen) := propertiesOfAll follow allOf seen
      (parts ++ ownProperties properties required, seen)

def propertiesOfAll (follow : Follow) : List Schema → List String →
    List Property × List String
  | [], seen => ([], seen)
  | s :: rest, seen =>
    let (first, seen) := propertiesWith follow s seen
    let (others, seen) := propertiesOfAll follow rest seen
    (first ++ others, seen)

end

/-- The properties behind a reference, which is followed once.  Each hop needs a further
registered schema. -/
def follow (r : Registry) : Nat → Follow
  | 0, _, seen => ([], seen)
  | hops + 1, name, seen =>
    if seen.contains name then ([], seen)
    else
      match r.get? name with
      | none => ([], name :: seen)
      | some target =>
        let (parts, seen) := propertiesOfAll (follow r hops) target.allOf (name :: seen)
        (parts ++ ownProperties target.properties target.required, seen)

/-- The properties of a schema, through references and compositions. -/
def allProperties (s : Schema) (r : Registry) : List Property :=
  (propertiesWith (follow r (r.schemas.length + 1)) s []).1

/-- Puts the properties of an unwrapped schema into the one around it. -/
def inlined (parent : Schema) (r : Registry) (d : Directive) (s : Schema) : Schema :=
  let before := (d.text? "prefix").getD ""
  let after := (d.text? "suffix").getD ""
  (s.allProperties r).foldl
    (fun parent p => parent.addProperty (before ++ p.name ++ after) p.schema p.required) parent

end Schema

namespace Compiler

/-- Adds what a member of the declaration contributes to a schema. -/
def addProperty (c : Compiler) (env : Environment) (owner : Decl) (parent : Schema) (m : Member)
    (t : TypeRef) (resolved : Resolved) : PassM Schema := do
  match m.unwrapping? with
  | some d => pure (parent.inlined (← get).registry d resolved.schema)
  | none =>
    let nullable := m.includesNull resolved.nullable && !m.excludesNull
    let bound ← c.bind env (.ofMember owner m) t resolved.schema nullable
    let name ← Pass.noting (m.propertyName owner)
    pure (parent.addProperty name bound (m.isRequired owner resolved.nullable))

/-- A member whose type cannot be represented is left out. -/
def addMember (c : Compiler) (env : Environment) (owner : Decl) (bindings : Bindings)
    (scope : Scope) (parent : Schema) (m : Member) : PassM Schema := do
  if m.isVisible env owner scope.view then
    let t := m.type.substitute bindings
    match ← c.resolve (some (.ofMember owner m)) t scope with
    | none => pure parent
    | some resolved => c.addProperty env owner parent m t resolved
  else pure parent

/-- Adds the members of a declaration in their order. -/
def addMembers (c : Compiler) (env : Environment) (owner : Decl) (bindings : Bindings)
    (scope : Scope) (s : Schema) : PassM Schema :=
  owner.members.foldlM (c.addMember env owner bindings scope) s

end Compiler

end Schemata
