import Schemata.FileTree
import Schemata.Universe.Codec

/-!
# Universes from files

An input path is a file with declarations, or a directory with such files at any depth, which
are taken in the order of their paths.  What tools leave behind is passed over.
-/
namespace Schemata

namespace Universe

inductive LoadError where
  | missing (path : String)
  | declarations (path : String) (e : Decl.DocumentError)
  deriving DecidableEq, Repr

/-- The message of a document names its cause twice: as the error and as what led to it. -/
def LoadError.message : LoadError → String
  | .missing path => "Input path does not exist: " ++ path
  | .declarations path e =>
    "Failed to parse declarations in " ++ path ++ ": " ++ e.message ++ ": " ++ e.reason

/-- Directories that are never entered. -/
def skipped : List String := ["target", ".git", "node_modules", ".cargo"]

/-- Whether a file below an input directory holds declarations. -/
def isInput (names : List String) : Bool :=
  names.all (!skipped.contains ·)
    && (names.getLast?.bind FileTree.ending?) == some "json"

/-- The texts of an input path, each with the path that it is known by. -/
def inputsOf (t : FileTree) (path : String) : Except LoadError (List (String × String)) :=
  match t.read? path with
  | some content => .ok [(path, content)]
  | none =>
    match t.directory? path with
    | none => .error (.missing path)
    | some place =>
      .ok (((t.below place).filter (isInput ·.1)).map fun file =>
        (FileTree.joined path file.1, file.2))

def declarationsOf (input : String × String) : Except LoadError (List Decl) :=
  (Decl.parseDocument input.2).mapError (.declarations input.1)

/-- The universe of all declarations under some paths.  Every path is looked for before any
text is read. -/
def load (n : Normalizer) (t : FileTree) (paths : List String) : Except LoadError Universe := do
  let inputs ← paths.mapM (inputsOf t)
  let decls ← inputs.flatten.mapM declarationsOf
  pure ((initial n).insertAll decls.flatten)

end Universe

end Schemata
