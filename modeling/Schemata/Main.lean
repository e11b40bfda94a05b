import Schemata.CommandLine.Run

/-!
# The command

Reads the files and variables that the arguments lead to, and runs the command on them.
-/
namespace Schemata

namespace CommandLine

/-- The tree of the file at a path. -/
def readFile (path : String) : IO FileTree := do
  let file := (← IO.currentDir) / path
  if (← file.pathExists) && !(← file.isDir) then
    pure { files := [(FileTree.place path, ← IO.FS.readFile file)] }
  else
    pure {}

/-- The tree of some names below a directory, down to a depth.  Only declarations are read. -/
def readBelow : Nat → String → List String → IO FileTree
  | 0, _, _ => pure {}
  | depth + 1, path, names => do
    let place := FileTree.place path ++ names
    let directory := (← IO.currentDir) / FileTree.joined path names
    let entries ← try directory.readDir catch _ => pure #[]
    entries.foldlM
      (fun tree entry => do
        let inner := names ++ [entry.fileName]
        match (← entry.path.symlinkMetadata).type with
        | .dir =>
          if Universe.skipped.contains entry.fileName then pure tree
          else pure (tree.union (← readBelow depth path inner))
        | .file =>
          if Universe.isInput inner then
            let content ← IO.FS.readFile entry.path
            pure (tree.union { files := [(FileTree.place path ++ inner, content)] })
          else pure tree
        | _ => pure tree)
      { directories := [place] }

/-- No directory is nested deeper. -/
def deepest : Nat := 4096

/-- The tree of an input path. -/
def readInput (path : String) : IO FileTree := do
  if ← ((← IO.currentDir) / path).isDir then readBelow deepest path [] else readFile path

/-- The directory of the user's configuration. -/
def userDirectory : IO (Option String) := do
  let home := (← IO.getEnv "HOME").map (FileTree.joined · [".config"])
  let named := (← IO.getEnv "XDG_CONFIG_HOME").filter (·.startsWith "/")
  pure ((named <|> home).map (FileTree.joined · ["typeschema"]))

def readVariables : IO (List (String × String)) :=
  Config.variableNames.filterMapM fun name => do
    pure ((← IO.getEnv name).map (name, ·))

/-- What a run with some options reads. -/
def readSources (o : Options) : IO Config.Sources := do
  let s : Config.Sources := ⟨{}, ← userDirectory, ← readVariables⟩
  let inputs ← o.inputs.mapM readInput
  let settings ← (Config.candidates s o.config).mapM readFile
  pure { s with files := (inputs ++ settings).foldl FileTree.union {} }

/-- The outcome of the command where it is started. -/
def start (arguments : List String) : IO Outcome := do
  match parse arguments with
  | .ok (some o) => pure (run (← readSources o) o)
  | _ => pure (outcome ⟨{}, none, []⟩ arguments)

end CommandLine

end Schemata

/-- Compiles declared types into schemas. -/
def main (arguments : List String) : IO UInt32 := do
  let outcome ←
    try Schemata.CommandLine.start arguments
    catch e =>
      pure { code := 1, stderr := "Error: " ++ toString e ++ "\n" }
  IO.print outcome.stdout
  IO.eprint outcome.stderr
  return UInt32.ofNat outcome.code
