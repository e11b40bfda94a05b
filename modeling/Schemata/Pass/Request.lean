import Schemata.Pass.Budget
import Schemata.Pass.Occurrence

/-!
# Requests

A pass serves requests one after the other.  A request asks for the schema of a type,
perhaps as that of an element with directives of its own.
-/
namespace Schemata

structure Request where
  type : TypeRef
  /-- The parameter or body that the type belongs to. -/
  element : Option Element := none
  scope : Scope := {}

namespace Compiler

/-- The compiler that serves a request. -/
def serving (env : Environment) (element : Option Element) (t : TypeRef) : Compiler :=
  ofDepth env (Budget.depth env element t)

/-- The schema of a request, to which the directives of the element are bound. -/
def request (c : Compiler) (env : Environment) (r : Request) : PassM (Option Schema) := do
  match ← c.resolve r.element r.type r.scope with
  | none => pure none
  | some resolved =>
    match r.element.filter (!·.directives.isEmpty) with
    | none => pure (some resolved.outer)
    | some e =>
      let nullable := resolved.nullable || e.has .nullable
      let bound ← c.bind env e r.type resolved.schema nullable
      pure (some bound)

end Compiler

namespace Pass

/-- The answer to a request and the pass after it. -/
def resolve (p : Pass) (env : Environment) (r : Request) :
    Except Stop (Option Schema) × Pass :=
  ((Compiler.serving env r.element r.type).request env r).run.run p

/-- The schema of a type. -/
def compile (p : Pass) (env : Environment) (t : TypeRef) : Except Stop (Option Schema) × Pass :=
  p.resolve env { type := t }

/-- Why a name has no schema. -/
inductive NamedError where
  | unknown (name : String)
  | stopped (s : Stop)
  deriving DecidableEq, Repr

def NamedError.message : NamedError → String
  | .unknown name => "Unknown type: " ++ name
  | .stopped s => s.message

/-- The schema of a declared type. -/
def compileNamed (p : Pass) (env : Environment) (name : String) :
    Except NamedError (Option Schema) × Pass :=
  if env.types.contains name then
    let (result, p) := p.compile env (.plain name)
    (result.mapError .stopped, p)
  else (.error (.unknown name), p)

end Pass

end Schemata
