import Schemata.Coerce.Date
import Schemata.Json.Parser
import Schemata.Schema.Type
import Schemata.Text.Integer
import Schemata.Text.Split

/-!
# Literals from text

Defaults, examples and constants are written as text and become values of the type and
format of the schema that they belong to.  An empty text is no value.  Objects, arrays and
untyped values are written as JSON.
-/
namespace Schemata

/-- Why a text is no value of a type. -/
inductive CoerceError where
  | mismatch (type : SchemaType) (format : Option String)
  | outOfRange (value format : String)
  | json (e : Json.SyntaxError)
  deriving DecidableEq, Repr

def CoerceError.message : CoerceError → String
  | .mismatch type none => "expected " ++ type.name
  | .mismatch type (some format) => "expected " ++ type.name ++ " (" ++ format ++ ")"
  | .outOfRange value format => value ++ " does not fit " ++ format
  | .json e => "invalid JSON: " ++ e.message

namespace Coerce

def isSchemeChar (c : Char) : Bool := c.isAlphanum || c = '+' || c = '.' || c = '-'

/-- What follows the scheme and its colon. -/
def afterScheme? : List Char → Option (List Char)
  | c :: rest =>
    if c.isAlpha then
      match rest.dropWhile isSchemeChar with
      | ':' :: after => some after
      | _ => none
    else none
  | [] => none

def hasNoBlank (text : List Char) : Bool := text.all (!Text.isBlank ·)

def isUri (text : List Char) : Bool :=
  match afterScheme? text with
  | some after => hasNoBlank after
  | none => false

def isUrl (text : List Char) : Bool :=
  match afterScheme? text with
  | some ('/' :: '/' :: after) => !after.isEmpty && hasNoBlank after
  | _ => false

def isHexDigit (c : Char) : Bool := (Json.hexValue? c).isSome

/-- Groups of 8, 4, 4, 4 and 12 hexadecimal digits between dashes. -/
def isUuid (text : List Char) : Bool :=
  let groups := Text.splitOn (· = '-') text
  groups.map List.length = [8, 4, 4, 4, 12] && groups.all (·.all isHexDigit)

/-- Whether a text is of a string format; formats that are not known exclude nothing. -/
def fits (format : Option String) (text : List Char) : Bool :=
  match format with
  | some "uri" => isUri text
  | some "url" => isUrl text
  | some "uuid" => isUuid text
  | some "date" => Date.isDate text
  | some "date-time" => Date.isDateTime text
  | _ => true

def string (raw : String) (format : Option String) : Except CoerceError Json :=
  if fits format raw.toList then .ok (.str raw) else .error (.mismatch .string format)

def boolean (raw : String) : Except CoerceError Json :=
  if Text.sameIgnoringCase raw "true" then .ok (.bool true)
  else if Text.sameIgnoringCase raw "false" then .ok (.bool false)
  else .error (.mismatch .boolean none)

/-- Digits after an optional minus.  The sign alone passes. -/
def looksIntegral (text : List Char) : Bool :=
  !text.isEmpty &&
    match text with
    | '-' :: rest => rest.all Char.isDigit
    | _ => text.all Char.isDigit

/-- The integer of a text that looks like one, if it is in the range of the format, and the
name of that range. -/
def readInteger (text : List Char) (format : Option String) : Option Int × String :=
  match format with
  | some "int32" => (Text.signed? 32 text, "int32")
  | some "int64" => (Text.signed? 64 text, "int64")
  | _ => ((Text.signed? 64 text).or ((Text.unsigned? 64 text).map fun n => (n : Int)), "integer")

def integer (text : List Char) (format : Option String) : Except CoerceError Json :=
  if !looksIntegral text then .error (.mismatch .integer format)
  else
    match readInteger text format with
    | (some i, _) => .ok (.num (.int i))
    | (none, range) => .error (.outOfRange (String.ofList text) range)

/-- The greatest binary32 number. -/
def greatestSingle : Double := .finite false (Nat.pow 2 53 - Nat.pow 2 29) 75

def number (text : List Char) (format : Option String) : Except CoerceError Json :=
  match Double.ofText? text with
  | none => .error (.mismatch .number format)
  | some x =>
    if format = some "float" ∧ x.isFinite ∧ greatestSingle.lt x.abs then
      .error (.outOfRange (String.ofList text) "float")
    else
      match (if format = none then Text.signed? 64 text else none) with
      | some i => .ok (.num (.int i))
      | none =>
        if x.isFinite then .ok (.num (.double x)) else .error (.mismatch .number format)

/-- JSON of one kind. -/
def structured (raw : String) (type : SchemaType) (isOfType : Json → Bool) :
    Except CoerceError Json :=
  match Json.parse raw with
  | .error e => .error (.json e)
  | .ok value => if isOfType value then .ok value else .error (.mismatch type none)

def value (raw : String) (type : Option SchemaType) (format : Option String) :
    Except CoerceError Json :=
  match type with
  | none => (Json.parse raw).mapError .json
  | some .object => structured raw .object fun v => v.asObj?.isSome
  | some .array => structured raw .array fun v => v.asArr?.isSome
  | some .string => string raw format
  | some .boolean => boolean raw
  | some .integer => integer (Text.trim raw.toList) format
  | some .number => number (Text.trim raw.toList) format
  | some .null => if raw = "null" then .ok .null else .error (.mismatch .null none)

end Coerce

/-- The value that a text stands for; none for the empty text. -/
def coerce (raw : String) (type : Option SchemaType) (format : Option String) :
    Except CoerceError (Option Json) :=
  if raw = "" then .ok none else (Coerce.value raw type format).map some

/-- Pieces between commas as texts. -/
def commaSeparated (raw : String) : Json :=
  .arr ((Text.splitOn (· = ',') raw.toList).map fun piece => .str (String.ofList (Text.trim piece)))

/-- Like `coerce`, but an array may also be written as pieces between commas. -/
def coerceMany (raw : String) (type : Option SchemaType) (format : Option String) :
    Except CoerceError (Option Json) :=
  if type = some .array ∧ (Text.trimStart raw.toList).head? ≠ some '[' ∧ raw ≠ "" then
    .ok (some (commaSeparated raw))
  else coerce raw type format

end Schemata
