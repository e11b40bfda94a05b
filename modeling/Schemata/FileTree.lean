import Schemata.Text.Split

/-!
# Trees of files

A tree is a list of files, each with the names on the way to it.  Directories without a file
are listed besides.  A written path is followed name by name; all but the last of them have
to be directories, and a path that ends in a slash has to be one itself.  The way may lead
out of the directory that it starts from: `..` then is a name like any other.
-/
namespace Schemata

structure FileTree where
  files : List (List String × String) := []
  directories : List (List String) := []
  deriving DecidableEq, Repr, Inhabited

namespace FileTree

/-- The pieces between slashes. -/
def pieces (path : String) : List String :=
  (Text.splitOn (· = '/') path.toList).map String.ofList

/-- The names of a written path.  A leading slash counts as a name. -/
def names (path : String) : List String :=
  let inner := (pieces path).filter fun piece => piece ≠ "" && piece ≠ "."
  if path.toList.head? = some '/' then "/" :: inner else inner

/-- A path without the pieces that lead nowhere. -/
def plain (path : String) : String :=
  if path.toList.head? = some '/' then path else Text.joined "/" (names path)

/-- Whether only a directory can be meant. -/
def endsInDirectory (path : String) : Bool :=
  match (pieces path).getLast? with
  | some piece => piece = "" || piece = "."
  | none => true

/-- The files and directories of both trees. -/
def union (t t' : FileTree) : FileTree :=
  ⟨t.files ++ t'.files, t.directories ++ t'.directories⟩

def content? (t : FileTree) (place : List String) : Option String :=
  (t.files.find? (·.1 = place)).map Prod.snd

/-- Of two trees the first one decides. -/
theorem content?_union (t t' : FileTree) (place : List String) :
    (t.union t').content? place = (t.content? place).or (t'.content? place) := by
  simp [content?, union, List.find?_append, Option.map_or]

/-- The tree itself, every place with a file below it, and the directories that are listed. -/
def hasDirectory (t : FileTree) (place : List String) : Bool :=
  place.isEmpty || t.directories.contains place
    || t.files.any fun file => place.isPrefixOf file.1 && file.1.length > place.length

/-- The place that a name leads to. -/
def step (here : List String) (name : String) : List String :=
  if name = ".." then
    match here.getLast? with
    | none => here ++ [name]
    | some ".." => here ++ [name]
    | some "/" => here
    | some _ => here.dropLast
  else here ++ [name]

/-- The place of a written path, of which nothing needs to exist. -/
def place (path : String) : List String := (names path).foldl step []

/-- Follows names through directories. -/
def follow (t : FileTree) (here : List String) : List String → Option (List String)
  | [] => some here
  | name :: rest =>
    let next := step here name
    if rest.isEmpty || t.hasDirectory next then t.follow next rest else none

/-- The place that a written path leads to. -/
def place? (t : FileTree) (path : String) : Option (List String) :=
  if path = "" then none else t.follow [] (names path)

/-- The content of the file at a path. -/
def read? (t : FileTree) (path : String) : Option String :=
  if endsInDirectory path then none else (t.place? path).bind t.content?

/-- The place of the directory at a path. -/
def directory? (t : FileTree) (path : String) : Option (List String) :=
  (t.place? path).filter t.hasDirectory

/-- Whether there is a file or a directory at a path. -/
def holds (t : FileTree) (path : String) : Bool :=
  (t.read? path).isSome || (t.directory? path).isSome

/-- The files below a place, by the names from there on, in the order of these names. -/
def below (t : FileTree) (place : List String) : List (List String × String) :=
  (t.files.filterMap fun file =>
    if place.isPrefixOf file.1 then some (file.1.drop place.length, file.2) else none).mergeSort
    fun a b => !decide (b.1 < a.1)

/-- A path with further names behind it. -/
def joined (path : String) (names : List String) : String :=
  let inner := Text.joined "/" names
  if path = "" || path.toList.getLast? = some '/' then path ++ inner else path ++ "/" ++ inner

/-- A path without what marks it as that of a directory, if a name is left. -/
def unmarked? (path : String) : Option String :=
  match (pieces path).reverse.dropWhile fun piece => piece = "" || piece = "." with
  | [] => none
  | ".." :: _ => none
  | last :: before => some (Text.joined "/" (last :: before).reverse)

/-- The ending of a name after its last dot; a dot that begins the name marks no ending. -/
def ending? (name : String) : Option String :=
  if (Text.beforeLast (· = '.') name.toList).isEmpty then none
  else some (String.ofList (Text.afterLast (· = '.') name.toList))

end FileTree

end Schemata
