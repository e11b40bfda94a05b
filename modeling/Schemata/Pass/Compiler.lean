import Schemata.Pass.Basic
import Schemata.Pass.Element
import Schemata.TypeRef.Parser

/-!
# Compilers

Occurrences lead to definitions and definitions to further occurrences.  The steps of a pass
are written over a compiler that stands for all that is nested deeper; the knot is tied
where the depth is bounded.
-/
namespace Schemata

/-- The schema of an occurrence.  That it admits null is kept beside the schema, so that it
can be said of the outermost node. -/
structure Resolved where
  schema : Schema
  nullable : Bool

def Resolved.outer (r : Resolved) : Schema :=
  if r.nullable then r.schema.setNullable else r.schema

/-- How occurrences are resolved and named types defined.  Neither gives a schema for a type
that cannot be represented. -/
structure Compiler where
  resolve : Option Element → TypeRef → Scope → PassM (Option Resolved)
  define : Option Element → TypeRef → Scope → PassM (Option Schema)

namespace Compiler

/-- What is nested too deep has no end. -/
def endless : Compiler := ⟨fun _ _ _ => throw .endless, fun _ _ _ => throw .endless⟩

/-- The finished schema of an occurrence without an element. -/
def schema? (c : Compiler) (t : TypeRef) (scope : Scope) : PassM (Option Schema) := do
  let resolved ← c.resolve none t scope
  pure (resolved.map Resolved.outer)

def invalidValue (subject message : String) : Diagnostic :=
  ⟨subject, .invalidDirectiveValue, message, []⟩

/-- The schema of a type that is named inside a directive. -/
def named? (c : Compiler) (subject text : String) : PassM (Option Schema) :=
  match TypeRef.parse text with
  | .ok t => c.schema? t {}
  | .error e => do
    Pass.report [invalidValue subject e.message]
    pure none

/-- The schemas of some named types, without those that cannot be represented. -/
def allNamed (c : Compiler) (subject : String) (texts : List String) : PassM (List Schema) := do
  let found ← texts.mapM (c.named? subject)
  pure (found.filterMap id)

end Compiler

end Schemata
