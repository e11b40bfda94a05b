import Schemata.Config.Settings
import Schemata.FileTree
import Schemata.Text.Quoted
import Schemata.Toml.Parser

/-!
# Configurations from files

Settings come from the usual places, from the directory of the user, from a file that is
named, and from variables, in this order.  A file is TOML or JSON by its ending.
-/
namespace Schemata

namespace Config

inductive LoadError where
  | missing (path : String)
  | unknownFormat (path : String)
  | json (path : String) (e : Json.SyntaxError)
  | toml (path : String)
  /-- The file holds a value of this kind instead of a table. -/
  | noTable (path kind : String)
  | unfit
  deriving DecidableEq, Repr

def LoadError.message : LoadError → String
  | .missing path => "configuration file \"" ++ path ++ "\" not found"
  | .unknownFormat path =>
    "configuration file \"" ++ path ++ "\" is not of a registered file format"
  | .json path e => e.message ++ " in " ++ path
  | .toml path => "TOML parse error in " ++ path
  | .noTable path kind =>
    "invalid type: " ++ kind ++ ", expected a map in " ++ path ++ " in " ++ path
  | .unfit => "the settings do not fit the configuration"

inductive Format where
  | toml | json
  deriving DecidableEq, Repr

/-- The format of a file by the ending of its name. -/
def formatOf? (path : String) : Option Format :=
  match ((FileTree.names path).getLast?.bind FileTree.ending?) with
  | some "toml" => some .toml
  | some "json" => some .json
  | _ => none

/-- A path with an ending that may have been left out. -/
def withEnding? (path ending : String) : Option String :=
  (FileTree.unmarked? path).map (· ++ ending)

/-- A file with settings. -/
structure File where
  path : String
  format : Format
  content : String
  deriving DecidableEq, Repr

/-- The file that a path stands for. -/
def find (t : FileTree) (path : String) : Except LoadError File :=
  match t.read? path with
  | some content =>
    match formatOf? path with
    | some format => .ok ⟨FileTree.plain path, format, content⟩
    | none => .error (.unknownFormat path)
  | none =>
    let ended (format : Format) (ending : String) : Option File := do
      let path ← withEnding? path ending
      let content ← t.read? path
      pure ⟨FileTree.plain path, format, content⟩
    match (ended .toml ".toml").or (ended .json ".json") with
    | some file => .ok file
    | none => .error (.missing path)

/-- The kind of a value that is no table. -/
def kindOf : Json → String
  | .null => "unit value"
  | .bool b => "boolean \x60" ++ toString b ++ "\x60"
  | .num n =>
    (if (Settings.integer? n).isSome then "64-bit integer" else "floating point")
      ++ " \x60" ++ Settings.numberText n ++ "\x60"
  | .str text => "string " ++ Text.quoted text
  | .arr _ => "sequence"
  | .obj _ => "map"

/-- The value that a file holds. -/
def File.value (f : File) : Except LoadError Json :=
  match f.format with
  | .toml =>
    match Toml.parse? f.content with
    | some value => .ok value
    | none => .error (.toml f.path)
  | .json => (Json.parse f.content).mapError (.json f.path)

/-- The members of a file. -/
def File.members (f : File) : Except LoadError (List (String × Json)) := do
  match ← f.value with
  | .obj members => pure members
  | other => .error (.noTable f.path (kindOf other))

/-- Adds the settings of a file that may be missing. -/
def addOptional (t : FileTree) (settings : Settings) (path : String) :
    Except LoadError Settings :=
  match find t path with
  | .ok file => file.members.map settings.addSource
  | .error _ => .ok settings

/-- Adds the settings of a file that has to be there. -/
def addRequired (t : FileTree) (settings : Settings) (path : String) :
    Except LoadError Settings := do
  let file ← find t path
  let members ← file.members
  pure (settings.addSource members)

/-- What a configuration is loaded from. -/
structure Sources where
  files : FileTree
  /-- The directory of the user's configuration. -/
  userDirectory : Option String := none
  /-- The variables that are set, by name. -/
  environment : List (String × String) := []

def fileName : String := "typeschema.toml"

/-- The usual places, which are looked at in this order. -/
def places : List String := [fileName, "." ++ fileName, "config/" ++ fileName]

/-- Where the user's file is. -/
def userPath? (s : Sources) : Option String :=
  s.userDirectory.map fun directory => FileTree.joined directory [fileName]

/-- The user's file, if there is one. -/
def userFile? (s : Sources) : Option String := (userPath? s).filter s.files.holds

/-- All paths at which a file may be found. -/
def candidates (s : Sources) (path : Option String) : List String :=
  (places ++ (userPath? s).toList ++ path.toList).flatMap fun place =>
    place :: [withEnding? place ".toml", withEnding? place ".json"].filterMap id

def variableBeginning : String := "TYPESCHEMA__"

/-- The variables of the settings. -/
def variableNames : List String :=
  (fields ++ NamingConfig.fields.map ("naming__" ++ ·) ++ ["json_view__default_inclusion"]).map
    fun name => variableBeginning ++ name.toUpper

/-- The settings of all sources. -/
def settings (s : Sources) (path : Option String) : Except LoadError Settings := do
  let usual ← (places ++ (userFile? s).toList).foldlM (addOptional s.files) []
  let named ← path.toList.foldlM (addRequired s.files) usual
  pure (named.addSource (s.environment.filterMap (Settings.ofVariable? variableBeginning)))

/-- The configuration that the sources describe. -/
def load (s : Sources) (path : Option String) : Except LoadError Config := do
  let found ← settings s path
  match found.config? with
  | some c => pure c
  | none => .error .unfit

end Config

end Schemata
