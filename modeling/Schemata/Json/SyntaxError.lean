import Schemata.Sum

/-!
# Where JSON text goes wrong

A reader stops at a cause and at the number of bytes that it has not looked at yet.  From
both and the text come the line and the column of the message: lines count from one, the
column is the number of bytes of the line that were looked at.
-/
namespace Schemata

namespace Json

inductive SyntaxCause where
  | unfinishedList
  | unfinishedObject
  | unfinishedString
  | unfinishedValue
  | expectedColon
  | expectedListCommaOrEnd
  | expectedObjectCommaOrEnd
  | expectedIdent
  | expectedValue
  | invalidEscape
  | invalidNumber
  | numberOutOfRange
  | controlCharacter
  | keyMustBeString
  | loneSurrogate
  | unfinishedSurrogate
  | trailingComma
  | trailingCharacters
  | tooDeep
  deriving DecidableEq, Repr, Inhabited

def SyntaxCause.message : SyntaxCause → String
  | .unfinishedList => "EOF while parsing a list"
  | .unfinishedObject => "EOF while parsing an object"
  | .unfinishedString => "EOF while parsing a string"
  | .unfinishedValue => "EOF while parsing a value"
  | .expectedColon => "expected \x60:\x60"
  | .expectedListCommaOrEnd => "expected \x60,\x60 or \x60]\x60"
  | .expectedObjectCommaOrEnd => "expected \x60,\x60 or \x60\x7d\x60"
  | .expectedIdent => "expected ident"
  | .expectedValue => "expected value"
  | .invalidEscape => "invalid escape"
  | .invalidNumber => "invalid number"
  | .numberOutOfRange => "number out of range"
  | .controlCharacter => "control character (\\u0000-\\u001F) found while parsing a string"
  | .keyMustBeString => "key must be a string"
  | .loneSurrogate => "lone leading surrogate in hex escape"
  | .unfinishedSurrogate => "unexpected end of hex escape"
  | .trailingComma => "trailing comma"
  | .trailingCharacters => "trailing characters"
  | .tooDeep => "recursion limit exceeded"

def byteLength (text : List Char) : Nat := sumOf Char.utf8Size text

/-- A cause, and how many bytes of the text were not looked at. -/
structure Failure where
  cause : SyntaxCause
  unread : Nat
  deriving DecidableEq, Repr, Inhabited

/-- The failure at the first character of the rest, or at the end of the text. -/
def Failure.at (cause : SyntaxCause) (rest : List Char) : Failure :=
  ⟨cause, byteLength rest - 1⟩

/-- The failure just before the rest. -/
def Failure.before (cause : SyntaxCause) (rest : List Char) : Failure :=
  ⟨cause, byteLength rest⟩

structure SyntaxError where
  cause : SyntaxCause
  line : Nat
  column : Nat
  deriving DecidableEq, Repr, Inhabited

def SyntaxError.message (e : SyntaxError) : String :=
  e.cause.message ++ " at line " ++ toString e.line ++ " column " ++ toString e.column

/-- Line and column after `bytes` bytes of the text. -/
def locate : List Char → Nat → Nat × Nat → Nat × Nat
  | [], _, here => here
  | c :: rest, bytes, (line, column) =>
    if bytes = 0 then (line, column)
    else if c = '\n' then locate rest (bytes - 1) (line + 1, 0)
    else if bytes < c.utf8Size then (line, column + bytes)
    else locate rest (bytes - c.utf8Size) (line, column + c.utf8Size)

def Failure.locate (f : Failure) (text : List Char) : SyntaxError :=
  let (line, column) := Json.locate text (byteLength text - f.unread) (1, 0)
  ⟨f.cause, line, column⟩

end Json

end Schemata
