import Schemata.Text.Lowercase
import Schemata.Text.Split

/-!
# Naming strategies

A strategy renames the properties of a type that have no name of their own.
-/
namespace Schemata

inductive PropertyNaming where
  | snakeCase | upperSnakeCase | lowerCamelCase | upperCamelCase | lowerCase | kebabCase
  | lowerDotCase
  deriving DecidableEq, Repr

namespace PropertyNaming

def all : List PropertyNaming :=
  [.snakeCase, .upperSnakeCase, .lowerCamelCase, .upperCamelCase, .lowerCase, .kebabCase,
    .lowerDotCase]

def name : PropertyNaming → String
  | .snakeCase => "SnakeCase"
  | .upperSnakeCase => "UpperSnakeCase"
  | .lowerCamelCase => "LowerCamelCase"
  | .upperCamelCase => "UpperCamelCase"
  | .lowerCase => "LowerCase"
  | .kebabCase => "KebabCase"
  | .lowerDotCase => "LowerDotCase"

/-- A separator stands before each capital that follows neither a capital nor a separator
and is not the first character.  `last` is the last character written. -/
def separatedAfter (separator : Char) : Option Char → Bool → List Char → List Char
  | _, _, [] => []
  | last, afterCapital, c :: rest =>
    if Text.isUppercase c then
      let lower := Text.lowerChar c
      let mark :=
        if !afterCapital && last.isSome && last ≠ some separator then [separator] else []
      mark ++ lower ++ separatedAfter separator (lower.getLast?.or last) true rest
    else c :: separatedAfter separator (some c) false rest

/-- The name in lower case with a separator before each run of capitals. -/
def separated (separator : Char) (name : List Char) : List Char :=
  separatedAfter separator none false name

def withFirst (f : Char → Char) : List Char → List Char
  | [] => []
  | c :: rest => f c :: rest

def translateChars (naming : PropertyNaming) (name : List Char) : List Char :=
  match naming with
  | .snakeCase => separated '_' (name.dropWhile (· = '_'))
  | .upperSnakeCase => Text.uppercase (separated '_' (name.dropWhile (· = '_')))
  | .lowerCamelCase => withFirst Char.toLower name
  | .upperCamelCase => withFirst Char.toUpper name
  | .lowerCase => Text.lowercase name
  | .kebabCase => separated '-' name
  | .lowerDotCase => separated '.' name

def translate (naming : PropertyNaming) (name : String) : String :=
  String.ofList (naming.translateChars name.toList)

/-- A text that names no strategy. -/
structure Unknown where
  text : String
  deriving DecidableEq, Repr

def Unknown.message (e : Unknown) : String := "unknown naming strategy '" ++ e.text ++ "'"

/-- The name of a strategy without its package, the word for strategies, and its
separators, in lower case. -/
def key (text : List Char) : List Char :=
  let last := Text.afterLast (fun c => c = '.' || c = '$') text
  let base := (Text.dropEnding? "Strategy".toList last).getD last
  (base.filter fun c => c ≠ '_' && c ≠ '-').map Char.toLower

def read (text : String) : Except Unknown PropertyNaming :=
  match all.find? fun naming => naming.name.toList.map Char.toLower = key text.toList with
  | some naming => .ok naming
  | none => .error ⟨text⟩

end PropertyNaming

end Schemata
