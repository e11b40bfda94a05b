import Schemata.Config.Basic
import Schemata.Json.Printer
import Schemata.Text.Lowercase

/-!
# Layered settings

Settings are gathered from several sources.  Of two sources the later wins: tables are merged
name by name, everything else is replaced.  Names are compared without regard to case.  The
outermost names may be paths into tables and lists.  A scalar is converted to what a setting
asks for.
-/
namespace Schemata

abbrev Settings := Assoc String Json

namespace Settings

def lower (s : String) : String := String.ofList (Text.lowercase s.toList)

/-- The table behind a name, to be filled further. -/
def table (settings : Settings) (name : String) : Settings :=
  ((settings.get? name).bind Json.asObj?).getD []

mutual

/-- Sets a name to a value; a table is merged into the one that is there. -/
def set (settings : Settings) (name : String) : Json → Settings
  | .obj [] => settings.insertNew (lower name) (.obj [])
  | .obj (entry :: rest) =>
    settings.insert (lower name) (.obj (setAll (settings.table (lower name)) (entry :: rest)))
  | value => settings.insert (lower name) value

def setAll (settings : Settings) : List (String × Json) → Settings
  | [] => settings
  | (name, value) :: rest => setAll (set settings name value) rest

end

/-! ### Paths -/

/-- A step from a value to a part of it. -/
inductive Step where
  | name (s : String)
  | index (i : Int)
  deriving DecidableEq, Repr

def isPathChar (c : Char) : Bool := c.isAlphanum || c = '_' || c = '-' || c = ' '

/-- The name at the beginning of a path. -/
def leadingName? (text : List Char) : Option (String × List Char) :=
  let name := text.takeWhile isPathChar
  if name.isEmpty then none else some (String.ofList name, text.dropWhile isPathChar)

/-- An index after its opening bracket. -/
def index? (text : List Char) : Option (Int × List Char) :=
  let isSpace (c : Char) : Bool := c = ' ' || c = '\t'
  match text.dropWhile (· ≠ ']') with
  | _ :: rest =>
    let word := (text.takeWhile (· ≠ ']')).dropWhile isSpace
    let digits := (word.reverse.dropWhile isSpace).reverse
    if digits.head? = some '+' then none else (Text.signed? 64 digits).map (·, rest)
  | [] => none

/-- The steps after the first name; each round takes one. -/
def steps? : Nat → List Char → Option (List Step)
  | _, [] => some []
  | rounds + 1, '.' :: text => do
    let (name, rest) ← leadingName? text
    let others ← steps? rounds rest
    pure (.name name :: others)
  | rounds + 1, '[' :: text => do
    let (i, rest) ← index? text
    let others ← steps? rounds rest
    pure (.index i :: others)
  | _, _ => none

/-- A name and the steps from it, such as `a.b[0]`. -/
def path? (text : List Char) : Option (List Step) := do
  let (name, rest) ← leadingName? text
  let others ← steps? rest.length rest
  pure (.name name :: others)

/-- A text that is no path is one name. -/
def pathOf (text : String) : List Step := (path? text.toList).getD [.name text]

/-- The list with one item changed.  A negative index counts from the end, and null stands
in the places that have to be added. -/
def changeAt (i : Int) (change : Json → Json) (items : List Json) : List Json :=
  if 0 ≤ i then
    (items ++ List.replicate (i.toNat + 1 - items.length) Json.null).modify i.toNat change
  else
    (List.replicate ((-i).toNat - items.length) Json.null ++ items).modify
      (items.length - (-i).toNat) change

/-- Puts a value where a path leads.  On the way, what is no table gives way to a table and
what is no list to a list. -/
def put (value : Json) : List Step → Json → Json
  | [], _ => value
  | [.name name], here => .obj (set (here.asObj?.getD []) name value)
  | .name name :: rest, here =>
    let settings : Settings := here.asObj?.getD []
    let inner := (settings.get? (lower name)).getD .null
    .obj (settings.insert (lower name) (put value rest inner))
  | .index i :: rest, here => .arr (changeAt i (put value rest) (here.asArr?.getD []))

/-- Adds the settings of a source, whose outermost names may be paths. -/
def addSource (settings : Settings) (source : List (String × Json)) : Settings :=
  source.foldl
    (fun settings entry => ((put entry.2 (pathOf entry.1) (.obj settings)).asObj?).getD [])
    settings

/-! ### Variables -/

/-- The value of a variable: a truth value, a number or a text. -/
def parseScalar (text : String) : Json :=
  match Directive.truth? text with
  | some b => .bool b
  | none =>
    match Text.signed? 64 text.toList with
    | some i => .num (.int i)
    | none =>
      match Double.ofText? text.toList with
      | some x => .num (.double x)
      | none => .str text

/-- Two underscores separate the names of a path. -/
def dotted : List Char → List Char
  | '_' :: '_' :: rest => '.' :: dotted rest
  | c :: rest => c :: dotted rest
  | [] => []

/-- The setting of a variable, if it is one. -/
def ofVariable? (beginning : String) (entry : String × String) : Option (String × Json) :=
  (Text.dropBeginning? (lower beginning).toList (Text.lowercase entry.1.toList)).map fun rest =>
    (String.ofList (dotted rest), parseScalar entry.2)

/-! ### Conversions -/

/-- Positional digits without a needless point. -/
def plainFormat : DecimalFormat := ⟨400, -400, [], 'e', []⟩

def doubleText : Double → String
  | .nan => "NaN"
  | .infinite negative => if negative then "-inf" else "inf"
  | .finite negative m e =>
    let digits := if m = 0 then ['0'] else
      let (n, k) := Double.shortest m e
      plainFormat.write n k
    String.ofList (if negative then '-' :: digits else digits)

/-- Integers of more than 64 bits, sign included, are no integers any more. -/
def integer? : Number → Option Int
  | .int i => if Text.inSignedRange 64 i then some i else none
  | .double _ => none

def numberText (n : Number) : String :=
  match integer? n with
  | some i => toString i
  | none => doubleText n.toDouble

/-- A scalar as text. -/
def text? : Json → Option String
  | .str s => some s
  | .bool b => some (toString b)
  | .num n => some (numberText n)
  | _ => none

/-- A scalar as truth value: numbers but zero are true, and so are some words. -/
def truth? : Json → Option Bool
  | .bool b => some b
  | .num (.int i) => some (i != 0)
  | .num (.double x) => some (!x.eqv (.zero false))
  | .str s =>
    if ["1", "true", "on", "yes"].contains (lower s) then some true
    else if ["0", "false", "off", "no"].contains (lower s) then some false
    else none
  | _ => none

/-- A value of a closed list, in any case: a text, or the only name of a table. -/
def choice? : Json → Option String
  | .str s => some (lower s)
  | .obj [(name, _)] => some (lower name)
  | _ => none

/-- Scalars are converted, and a list may be longer than the record. -/
def loosely : Json.FieldReader := ⟨Json.leadingFields?, text?, truth?, choice?⟩

/-- The configuration that the settings describe. -/
def config? (settings : Settings) : Option Config := Config.read? loosely (.obj settings)

end Settings

end Schemata
