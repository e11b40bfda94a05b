import Schemata.Pass.Definition

/-!
# Occurrences

An occurrence becomes an inline schema or a reference: value types and containers are written
out, declared types are defined and referred to.
-/
namespace Schemata

namespace Compiler

/-- A reference keeps the directives of its use in a second part. -/
def usedReference (reference : Schema) (target : ConstraintTarget) (ds : Directives) : Schema :=
  let constraints := ({} : Schema).used target ds
  if constraints.isEmpty then reference else { allOf := [reference, constraints] }

/-- An argument with the directives of its use.  Those of a value type are part of its
schema already. -/
def withUse (u : Universe) (arg : TypeRef) (s : Schema) : Schema :=
  if arg.directives.isEmpty || (u.primitiveOf? arg).isSome then s
  else
    let target : ConstraintTarget := if u.isContainer arg then .container else .value
    if s.isRef then usedReference s target arg.directives else s.used target arg.directives

/-- The schema of an argument or of an element of an array. -/
def argument (c : Compiler) (env : Environment) (arg : TypeRef) (scope : Scope) :
    PassM (Option Schema) := do
  let found ← c.schema? arg scope
  pure (found.map (withUse env.types arg))

/-- Whether a type says nothing of its values. -/
def admitsAll (u : Universe) (t : TypeRef) : Bool :=
  match t with
  | .wildcard [] => true
  | _ => u.primitiveOf? t == some .object

/-- A map from the constants of an enumeration: one property for each. -/
def unrolledMap (c : Compiler) (env : Environment) (d : Decl) (key value : TypeRef)
    (scope : Scope) : PassM Schema := do
  let _ ← c.define none key scope
  let found ← c.argument env value scope
  let s := found.getD .object
  let keys ← Pass.noting (d.enumValues (some .string) none)
  pure
    { Schema.object with
      properties := Assoc.ofList ((keys.getD []).map fun key => (Mangle.rendered key, s)) }

/-- A map whose keys are not listed: what its values are is said of all of them. -/
def uniformMap (c : Compiler) (env : Environment) (value : TypeRef) (scope : Scope) :
    PassM Schema := do
  if admitsAll env.types value then
    pure { Schema.object with additional := some (.allowed true) }
  else
    match ← c.argument env value scope with
    | some s => pure { Schema.object with additional := some (.schema s) }
    | none => pure { Schema.object with additional := some (.allowed true) }

/-- The schema of a map with these arguments. -/
def map (c : Compiler) (env : Environment) (args : List TypeRef) (scope : Scope) :
    PassM Schema := do
  match args with
  | [] => pure { Schema.object with additional := some (.allowed true) }
  | key :: rest =>
    match env.types.kindOf key with
    | .enum d => c.unrolledMap env d key (rest.head?.getD .object) scope
    | _ => c.uniformMap env (rest.head?.getD .object) scope

/-- The schema of an array; bytes are a text. -/
def arrayOf (c : Compiler) (env : Environment) (element : TypeRef) (scope : Scope) :
    PassM (Option Schema) := do
  if env.types.primitiveOf? element = some .byte then
    pure (some ((Schema.typed .string).withFormat "byte"))
  else
    let found ← c.argument env element scope
    pure (found.map Schema.array)

/-- A collection with members of its own is defined, any other is an array of its first
argument. -/
def collection (c : Compiler) (env : Environment) (element : Option Element) (d : Decl)
    (t : TypeRef) (scope : Scope) : PassM (Option Schema) := do
  if env.types.hasProperties d then c.define element t scope
  else
    match (env.types.bindings t).values with
    | [] => pure (some (Schema.array .object))
    | item :: _ =>
      let found ← c.argument env item scope
      pure (found.map Schema.array)

/-- The schema of an occurrence that has been opened; the subject is what it was before. -/
def opened (c : Compiler) (env : Environment) (subject : String) (element : Option Element)
    (t : TypeRef) (scope : Scope) : PassM (Option Schema) := do
  match env.types.kindOf t with
  | .array item => c.arrayOf env item scope
  | .primitive p => pure (some (p.schema.used .value t.directives))
  | .map _ => do
    let s ← c.map env t.args scope
    pure (some s)
  | .iterable d => c.collection env element d t scope
  | .enum _ => c.define element t scope
  | .record _ => c.define element t scope
  | .interface _ => c.define element t scope
  | _ =>
    let name := t.name?.getD ""
    Pass.report [.unknownType subject name (env.types.suggest name)]
    pure none

/-- An inline schema without a description takes that of its element. -/
def describedBy (element : Option Element) (s : Schema) : Schema :=
  if s.labels.description.isNone && !s.isRef then
    { s with labels.description := element.bind Element.description? }
  else s

/-- A stream is an array, unless a media type of the request carries streams as they are. -/
def streamed (config : Config) (scope : Scope) (isStream : Bool) (s : Schema) : Schema :=
  if isStream && !(scope.mediaTypes.any config.isStreaming) then .array s else s

/-- Resolves an occurrence. -/
def occurrence (c : Compiler) (env : Environment) (element : Option Element) (t : TypeRef)
    (scope : Scope) : PassM (Option Resolved) := do
  let content ← Pass.noting (openOccurrence env element t)
  let found ← c.opened env (subjectOf element t) element content.type scope
  pure (found.map fun s =>
    ⟨streamed env.config scope content.isStream (describedBy element s), content.nullable⟩)

/-- A compiler of bounded depth. -/
def ofDepth (env : Environment) : Nat → Compiler
  | 0 => endless
  | depth + 1 =>
    ⟨fun element t scope => (ofDepth env depth).occurrence env element t scope,
      fun element t scope => (ofDepth env depth).defined env element t scope⟩

end Compiler

end Schemata
