import Schemata.Assoc
import Schemata.Text.Blank
import Schemata.Text.Split

/-!
# Documentation text

A text is read by lines, without blanks and leading asterisks.  Lines before the first tag
describe the element.  A line that begins with the tag for a parameter opens the entry of
the parameter it names, and lines without a tag continue it.  Any other tag closes the
entry, and the lines after it belong to nothing.
-/
namespace Schemata

structure DocText where
  description : Option String
  params : Assoc String String
  deriving DecidableEq, Repr

namespace DocText

/-- What further lines without a tag belong to. -/
inductive Section where
  | description
  | param (name : String)
  | nothing
  deriving DecidableEq, Repr

inductive Line where
  | param (name body : String)
  | otherTag
  | text (content : List Char)
  deriving DecidableEq, Repr

/-- A line without blanks around it and without leading asterisks. -/
def stripped (line : List Char) : List Char :=
  Text.trim ((Text.trim line).dropWhile (· = '*'))

/-- The word and the rest after a blank. -/
def splitWord (text : List Char) : List Char × List Char :=
  (text.takeWhile (!Text.isBlank ·), (text.dropWhile (!Text.isBlank ·)).drop 1)

def Line.of (line : List Char) : Line :=
  let line := stripped line
  match Text.dropBeginning? "@param".toList line with
  | some rest =>
    let (name, body) := splitWord (Text.trim rest)
    .param (String.ofList name) (String.ofList (Text.trim body))
  | none => if line.head? = some '@' then .otherTag else .text line

structure State where
  lines : List (List Char) := []
  params : Assoc String String := []
  current : Section := .description

/-- A further line of an entry follows after a blank. -/
def extend (content : List Char) (body : String) : String :=
  if body = "" then String.ofList content else body ++ " " ++ String.ofList content

/-- A parameter tag without a name opens no entry and closes none; after another tag it
returns to the description. -/
def State.next (s : State) : Line → State
  | .param name body =>
    if name = "" then
      { s with current := if s.current = .nothing then .description else s.current }
    else { s with params := s.params.insert name body, current := .param name }
  | .otherTag => { s with current := .nothing }
  | .text content =>
    match s.current with
    | .description => { s with lines := s.lines ++ [content] }
    | .nothing => s
    | .param name =>
      if content.isEmpty then s
      else { s with params := s.params.modify name (extend content) }

def parse (text : String) : DocText :=
  let s := (Text.lines text.toList).foldl (fun s line => s.next (.of line)) ({} : State)
  let description := Text.trim (['\n'].intercalate s.lines)
  ⟨if description.isEmpty then none else some (String.ofList description), s.params⟩

/-- The entry of a parameter, if it says anything. -/
def param? (d : DocText) (name : String) : Option String :=
  (d.params.get? name).filter (· ≠ "")

end DocText

end Schemata
