import Schemata.Diagnostics
import Schemata.Naming.Table
import Schemata.Registry

/-!
# The state of a pass

A pass turns occurrences of types into schemas.  It fills the registry, hands out names and
collects diagnostics; a request that is stopped leaves behind what it did before.
-/
namespace Schemata

/-- What a pass reads and never changes. -/
structure Environment where
  types : Universe
  config : Config

structure Pass where
  registry : Registry := {}
  names : NameTable := {}
  diagnostics : Diagnostics := []

/-- Why a request ends without an answer. -/
inductive Stop where
  | duplicateName (e : DuplicateName)
  /-- The types of the request lead to ever larger types. -/
  | endless
  deriving DecidableEq, Repr

def Stop.message : Stop → String
  | .duplicateName e => e.message
  | .endless => "The types of the request lead to ever larger types"

/-- What surrounds the types of a request. -/
structure Scope where
  mediaTypes : List String := []
  /-- The qualified name of the active view. -/
  view : Option String := none
  deriving DecidableEq, Repr, Inhabited

/-- A step of a pass.  The state is kept when the step stops. -/
abbrev PassM := ExceptT Stop (StateM Pass)

namespace Pass

def report (ds : Diagnostics) : PassM Unit :=
  modify fun p => { p with diagnostics := p.diagnostics ++ ds }

/-- A value with the diagnostics that finding it gave rise to. -/
def noting (found : α × Diagnostics) : PassM α := do
  report found.2
  pure found.1

/-- Whether a name is registered or about to be. -/
def isKnown (p : Pass) (name : String) : Bool :=
  p.registry.contains name || p.registry.isInProgress name

def startName (name : String) (p : Pass) : Pass :=
  { p with registry := (p.registry.start name).2 }

def finishName (name : String) (p : Pass) : Pass :=
  { p with registry := p.registry.finish name }

/-- Marks a name as being defined for as long as a step takes, also if the step stops. -/
def defining (name : String) (step : PassM α) : PassM α := ExceptT.mk do
  modify (startName name)
  let result ← step.run
  modify (finishName name)
  pure result

def register (name : String) (s : Schema) : PassM Unit :=
  modify fun p => { p with registry := (p.registry.register name s).2 }

@[simp] theorem run_report (ds : Diagnostics) (p : Pass) :
    (report ds).run.run p = (.ok (), { p with diagnostics := p.diagnostics ++ ds }) := rfl

@[simp] theorem run_noting (found : α × Diagnostics) (p : Pass) :
    (noting found).run.run p =
      (.ok found.1, { p with diagnostics := p.diagnostics ++ found.2 }) := rfl

@[simp] theorem run_register (name : String) (s : Schema) (p : Pass) :
    (register name s).run.run p =
      (.ok (), { p with registry := (p.registry.register name s).2 }) := rfl

/-- The name is finished whatever the step comes to. -/
theorem run_defining (name : String) (step : PassM α) (p : Pass) :
    (defining name step).run.run p =
      ((step.run.run (startName name p)).1,
        finishName name (step.run.run (startName name p)).2) := rfl

def duplicateSchemaName (subject : String) (e : DuplicateName) : Diagnostic :=
  ⟨subject, .duplicateSchemaName, e.message, []⟩

/-- The name of a request.  A clash of names is reported before it stops the pass. -/
def assignName (env : Environment) (request : NameRequest) : PassM String := do
  match (← get).names.compute env.config env.types request with
  | none => throw .endless
  | some (.error e) =>
    report [duplicateSchemaName request.type.display e]
    throw (.duplicateName e)
  | some (.ok (name, names)) =>
    modify fun p => { p with names := names }
    pure name

end Pass

end Schemata
