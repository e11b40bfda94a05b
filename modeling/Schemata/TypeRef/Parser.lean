import Schemata.TypeRef.Basic
import Schemata.Text.Alphanumeric
import Schemata.Json.SyntaxError

/-!
# Reading type occurrences

    type  ::= '?' | '?' 'extends' type | '?' 'super' type | name args? '[]'*
    args  ::= '<' type (',' type)* '>'
    name  ::= (letter | digit | '_' | '.' | '$' | '-')+

Blanks may stand between tokens, and have to follow the two words.  A lower bound is read
and forgotten.
-/
namespace Schemata

namespace TypeRef

/-- What was wrong, and the text that was left. -/
inductive Failure where
  | expectedName (rest : List Char)
  | expectedCommaOrEnd (rest : List Char)
  | unexpected (rest : List Char)
  deriving DecidableEq, Repr

/-- A text that is no type occurrence. -/
structure Invalid where
  input : String
  failure : Failure
  deriving DecidableEq, Repr

def Failure.rest : Failure → List Char
  | .expectedName rest => rest
  | .expectedCommaOrEnd rest => rest
  | .unexpected rest => rest

/-- The number of bytes before the failure. -/
def Invalid.offset (e : Invalid) : Nat :=
  Json.byteLength e.input.toList - Json.byteLength e.failure.rest

def Invalid.reason (e : Invalid) : String :=
  let place := " at offset " ++ toString e.offset
  match e.failure with
  | .expectedName _ => "expected a type name" ++ place
  | .expectedCommaOrEnd _ => "expected ',' or '>'" ++ place
  | .unexpected rest => "unexpected '" ++ String.ofList rest ++ "'" ++ place

def Invalid.message (e : Invalid) : String :=
  "Invalid type reference '" ++ e.input ++ "': " ++ e.reason

abbrev Reader := List Char → Except Failure (TypeRef × List Char)

def isNameChar (c : Char) : Bool :=
  Text.isAlphanumeric c || c = '_' || c = '.' || c = '$' || c = '-'

/-- The rest after a word that ends the text or is followed by a blank. -/
def keyword? (word rest : List Char) : Option (List Char) :=
  (Text.dropBeginning? word (Text.trimStart rest)).filter fun after =>
    match after with
    | [] => true
    | c :: _ => Text.isBlank c

/-- Takes the array marks; each round takes two characters. -/
def readArrays : Nat → TypeRef → List Char → TypeRef × List Char
  | 0, t, rest => (t, rest)
  | rounds + 1, t, rest =>
    match Text.trimStart rest with
    | '[' :: ']' :: after => readArrays rounds (.array t) after
    | other => (t, other)

/-- The arguments after the opening mark; each round takes an argument. -/
def readArgs (inner : Reader) : Nat → List TypeRef → List Char →
    Except Failure (List TypeRef × List Char)
  | 0, _, rest => .error (.expectedCommaOrEnd rest)
  | rounds + 1, done, rest =>
    match inner rest with
    | .error e => .error e
    | .ok (arg, after) =>
      match Text.trimStart after with
      | ',' :: next => readArgs inner rounds (arg :: done) next
      | '>' :: next => .ok ((arg :: done).reverse, next)
      | other => .error (.expectedCommaOrEnd other)

/-- What follows the mark of a wildcard. -/
def readWildcard (inner : Reader) (rest : List Char) : Except Failure (TypeRef × List Char) :=
  match keyword? "extends".toList rest with
  | some after => (inner after).map fun r => (.wildcard [r.1], r.2)
  | none =>
    match keyword? "super".toList rest with
    | some after => (inner after).map fun r => (.wildcard [], r.2)
    | none => .ok (.wildcard [], rest)

/-- A name with its arguments and array marks. -/
def readNamed (inner : Reader) (rest : List Char) : Except Failure (TypeRef × List Char) :=
  let name := rest.takeWhile isNameChar
  let after := rest.dropWhile isNameChar
  if name.isEmpty then .error (.expectedName rest)
  else
    match Text.trimStart after with
    | '<' :: next =>
      match readArgs inner (next.length + 1) [] next with
      | .error e => .error e
      | .ok (args, next) =>
        .ok (readArrays (next.length + 1) (generic (String.ofList name) args) next)
    | other => .ok (readArrays (other.length + 1) (plain (String.ofList name)) other)

/-- An occurrence whose arguments and bounds are read by `inner`. -/
def readWith (inner : Reader) : Reader := fun text =>
  match Text.trimStart text with
  | '?' :: rest => readWildcard inner rest
  | rest => readNamed inner rest

/-- An occurrence of at most `depth` levels. -/
def readDepth : Nat → Reader
  | 0 => fun rest => .error (.expectedName rest)
  | depth + 1 => readWith (readDepth depth)

/-- A level takes a character, so the length of the text bounds the depth. -/
def readAll (text : List Char) : Except Failure TypeRef :=
  match readDepth (text.length + 1) text with
  | .error e => .error e
  | .ok (t, rest) =>
    match Text.trimStart rest with
    | [] => .ok t
    | other => .error (.unexpected other)

def parse (text : String) : Except Invalid TypeRef :=
  (readAll text.toList).mapError (⟨text, ·⟩)

def parse? (text : String) : Option TypeRef := (parse text).toOption

end TypeRef

end Schemata
