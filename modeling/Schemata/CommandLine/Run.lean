import Schemata.CommandLine.Arguments
import Schemata.Config.Loading
import Schemata.Pass.Request
import Schemata.Universe.Loading

/-!
# A run of the command

The types of the input files are compiled into one document of schemas, which is written to
the standard output.  Diagnostics and a summary go to the standard error.
-/
namespace Schemata

namespace CommandLine

/-- What a run writes, and its exit code. -/
structure Outcome where
  code : Nat
  stdout : String := ""
  stderr : String := ""
  deriving DecidableEq, Repr, Inhabited

inductive RunError where
  | config (e : Config.LoadError)
  | inputs (e : Universe.LoadError)
  | root (e : TypeRef.Invalid)
  | stopped (s : Stop)
  deriving DecidableEq, Repr

def RunError.message : RunError → String
  | .config e => "Failed to load configuration: " ++ e.message
  | .inputs e => e.message
  | .root e => e.message
  | .stopped s => s.message

/-- Whether a declaration is compiled unless roots are named. -/
def isDefaultRoot (d : Decl) : Bool :=
  d.params.isEmpty && (d.kind == .record || d.kind == .interface || d.kind == .enum)

/-- The default roots in the order of their names. -/
def defaultRoots (u : Universe) : List String :=
  ((u.declared.filter isDefaultRoot).map Decl.name).mergeSort fun a b => !decide (b < a)

def rootsOf (o : Options) (u : Universe) : List String :=
  if o.roots.isEmpty then defaultRoots u else o.roots

def compileRoot (env : Environment) (scope : Scope) (p : Pass) (written : String) :
    Except RunError Pass := do
  let t ← (TypeRef.parse written).mapError .root
  match p.resolve env { type := t, scope := scope } with
  | (.ok _, p) => pure p
  | (.error s, _) => .error (.stopped s)

/-- The pass that compiled all roots, and how many they were. -/
def compileAll (s : Config.Sources) (o : Options) : Except RunError (Nat × Pass) := do
  let c ← (Config.load s o.config).mapError .config
  let u ← (Universe.load Normalizer.standard s.files o.inputs).mapError .inputs
  let roots := rootsOf o u
  let p ← roots.foldlM (compileRoot ⟨u, c⟩ ⟨o.mediaTypes, o.view⟩) {}
  pure (roots.length, p)

def summary (roots : Nat) (p : Pass) : String :=
  "✅ Compiled " ++ toString roots ++ " roots into " ++ toString p.registry.names.length
    ++ " schemas (" ++ toString p.diagnostics.length ++ " diagnostics)\n"

def render (o : Options) (document : Json) : String :=
  (if o.compact then document.compact else document.pretty) ++ "\n"

/-- The outcome of a pass over all roots. -/
def report (o : Options) (roots : Nat) (p : Pass) : Outcome where
  code := 0
  stdout := render o p.registry.components
  stderr :=
    (if p.diagnostics.isEmpty then "" else p.diagnostics.report ++ "\n") ++ summary roots p

def run (s : Config.Sources) (o : Options) : Outcome :=
  match compileAll s o with
  | .ok (roots, p) => report o roots p
  | .error e => { code := 1, stderr := "Error: " ++ e.message ++ "\n" }

/-- The outcome of the command for its arguments. -/
def outcome (s : Config.Sources) (arguments : List String) : Outcome :=
  match parse arguments with
  | .ok (some o) => run s o
  | .ok none => { code := 0, stdout := help }
  | .error e => { code := 2, stderr := e.message }

end CommandLine

end Schemata
