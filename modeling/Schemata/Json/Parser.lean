import Schemata.Json.Basic
import Schemata.Json.SyntaxError
import Schemata.Double.Reading

/-!
# Reading JSON

A reader takes the rest of the text and gives back a value and the rest after it, or the
failure.  Nesting is bounded, and the values of a list or an object are read in rounds of
which each takes at least one character, so both recursions end.
-/
namespace Schemata

namespace Json

/-- A value with the text that follows it, or the place of the failure. -/
abbrev Reader (α : Type) := List Char → Except Failure (α × List Char)

def isJsonBlank (c : Char) : Bool := c = ' ' || c = '\n' || c = '\t' || c = '\r'

def skipBlanks (text : List Char) : List Char := text.dropWhile isJsonBlank

/-! ### Numbers -/

/-- Whether `10 · n + digit` exceeds 64 bits. -/
def overflows (n digit : Nat) : Bool := Nat.pow 2 64 ≤ 10 * n + digit

/-- Takes digits into the significand as long as it fits 64 bits; gives the significand,
the number of digits taken and the rest. -/
def takeDigits : Nat → Nat → List Char → Nat × Nat × List Char
  | n, taken, c :: rest =>
    if c.isDigit && !overflows n (Double.digitValue c) then
      takeDigits (10 * n + Double.digitValue c) (taken + 1) rest
    else (n, taken, c :: rest)
  | n, taken, [] => (n, taken, [])

def startsWithDigit : List Char → Bool
  | c :: _ => c.isDigit
  | [] => false

/-- Divides by powers of ten up to 1e308, at most three times: the fourth quotient of a
64-bit number would be zero. -/
def scaleDown : Nat → Double → Nat → Double
  | 0, x, _ => x
  | rounds + 1, x, e =>
    if e ≤ 308 then x / Double.ofDecimal false 1 e
    else if x.eqv (.zero false) then x
    else scaleDown rounds (x / Double.ofDecimal false 1 308) (e - 308)

/-- `significand · 10 ^ exponent`, by one rounded product or quotient of rounded factors;
none when the product is too large. -/
def scale (significand : Nat) (exponent : Int) : Option Double :=
  let x := Double.ofNat significand
  if exponent < 0 then some (scaleDown 4 x exponent.natAbs)
  else if 308 < exponent then (if significand = 0 then some x else none)
  else
    let product := x * Double.ofDecimal false 1 exponent
    if product.isFinite then some product else none

def negated (negative : Bool) : Double → Double
  | .finite s m e => .finite (s != negative) m e
  | .infinite s => .infinite (s != negative)
  | .nan => .nan

def finishDouble (negative : Bool) (significand : Nat) (exponent : Int) (rest : List Char) :
    Except Failure (Number × List Char) :=
  match scale significand exponent with
  | some x => .ok (.double (negated negative x), rest)
  | none => .error (.before .numberOutOfRange rest)

/-- The greatest exponent that is written out in full. -/
def exponentLimit : Nat := 2147483647

/-- Takes the digits of an exponent; the first digit that passes the limit is the last
one taken. -/
def takeExponent : Nat → List Char → Nat × List Char
  | n, c :: rest =>
    if c.isDigit then
      let next := 10 * n + Double.digitValue c
      if exponentLimit < next then (next, rest) else takeExponent next rest
    else (n, c :: rest)
  | n, [] => (n, [])

/-- What follows the mark of an exponent. -/
def readExponentPart (negative : Bool) (significand : Nat) (exponent : Int)
    (rest : List Char) : Except Failure (Number × List Char) :=
  let (down, digits) := Double.splitSign rest
  match digits with
  | [] => .error (.before .unfinishedValue [])
  | c :: _ =>
    if !c.isDigit then .error (.at .invalidNumber digits)
    else
      let (n, after) := takeExponent 0 digits
      if exponentLimit < n then
        if significand ≠ 0 ∧ !down then .error (.before .numberOutOfRange after)
        else .ok (.double (.zero negative), after.dropWhile Char.isDigit)
      else
        let e := if down then exponent - n else exponent + n
        finishDouble negative significand (max (min e exponentLimit) (-exponentLimit - 1)) after

/-- What follows the digits of a number that is no integer. -/
def readScaled (negative : Bool) (significand : Nat) (exponent : Int) (rest : List Char) :
    Except Failure (Number × List Char) :=
  match rest with
  | 'e' :: after => readExponentPart negative significand exponent after
  | 'E' :: after => readExponentPart negative significand exponent after
  | _ => finishDouble negative significand exponent rest

/-- What follows the point.  Digits beyond 64 bits are dropped. -/
def readFraction (negative : Bool) (significand : Nat) (exponent : Int) (rest : List Char) :
    Except Failure (Number × List Char) :=
  let (n, taken, after) := takeDigits significand 0 rest
  if startsWithDigit after then
    readScaled negative n (exponent - taken) (after.dropWhile Char.isDigit)
  else if taken = 0 then
    .error (.at (if after.isEmpty then .unfinishedValue else .invalidNumber) after)
  else readScaled negative n (exponent - taken) after

/-- What follows the first digits of a number. -/
def readTail (negative : Bool) (significand : Nat) (rest : List Char) :
    Except Failure (Number × List Char) :=
  match rest with
  | '.' :: after => readFraction negative significand 0 after
  | 'e' :: after => readExponentPart negative significand 0 after
  | 'E' :: after => readExponentPart negative significand 0 after
  | _ =>
    if !negative then .ok (.int significand, rest)
    else if significand = 0 ∨ Nat.pow 2 63 < significand then
      .ok (.double (negated true (Double.ofNat significand)), rest)
    else .ok (.int (-significand), rest)

/-- An integer beyond 64 bits: its further digits only count. -/
def readLong (negative : Bool) (significand : Nat) (rest : List Char) :
    Except Failure (Number × List Char) :=
  let exponent : Int := (rest.takeWhile Char.isDigit).length
  match rest.dropWhile Char.isDigit with
  | '.' :: after => readFraction negative significand exponent after
  | after => readScaled negative significand exponent after

/-- A number after its sign. -/
def readNumber (negative : Bool) (rest : List Char) : Except Failure (Number × List Char) :=
  match rest with
  | [] => .error (.before .unfinishedValue [])
  | '0' :: after =>
    if startsWithDigit after then .error (.at .invalidNumber after)
    else readTail negative 0 after
  | c :: _ =>
    if !c.isDigit then .error (.at .invalidNumber rest)
    else
      let (n, _, after) := takeDigits 0 0 rest
      if startsWithDigit after then readLong negative n after else readTail negative n after

/-! ### Strings -/

def hexValue? (c : Char) : Option Nat :=
  if c.isDigit then some (c.toNat - '0'.toNat)
  else if 'a' ≤ c ∧ c ≤ 'f' then some (c.toNat - 'a'.toNat + 10)
  else if 'A' ≤ c ∧ c ≤ 'F' then some (c.toNat - 'A'.toNat + 10)
  else none

/-- The four digits of an escape. -/
def readHex (rest : List Char) : Except Failure (Nat × List Char) :=
  if byteLength rest < 4 then .error (.before .unfinishedString [])
  else
    match rest with
    | a :: b :: c :: d :: after =>
      match hexValue? a, hexValue? b, hexValue? c, hexValue? d with
      | some a, some b, some c, some d => .ok (((a * 16 + b) * 16 + c) * 16 + d, after)
      | _, _, _, _ => .error ⟨.invalidEscape, byteLength rest - 4⟩
    | _ => .error ⟨.invalidEscape, byteLength rest - 4⟩

/-- The mark that has to follow the first half of a surrogate pair. -/
def readMark (mark : Char) (rest : List Char) : Except Failure (List Char) :=
  match rest with
  | [] => .error (.before .unfinishedString [])
  | c :: after => if c = mark then .ok after else .error (.at .unfinishedSurrogate rest)

/-- A character written as one escape or as a surrogate pair, after its mark. -/
def readUnicode (rest : List Char) : Except Failure (Char × List Char) := do
  let (high, after) ← readHex rest
  if 0xDC00 ≤ high ∧ high ≤ 0xDFFF then throw (.before .loneSurrogate after)
  else if high < 0xD800 ∨ 0xDBFF < high then pure (Char.ofNat high, after)
  else
    let after ← readMark '\\' after
    let after ← readMark 'u' after
    let (low, after) ← readHex after
    if low < 0xDC00 ∨ 0xDFFF < low then throw (.before .loneSurrogate after)
    else pure (Char.ofNat (0x10000 + (high - 0xD800) * 0x400 + (low - 0xDC00)), after)

/-- One escape after the backslash. -/
def readEscape (rest : List Char) : Except Failure (Char × List Char) :=
  match rest with
  | [] => .error (.before .unfinishedString [])
  | '"' :: after => .ok ('"', after)
  | '\\' :: after => .ok ('\\', after)
  | '/' :: after => .ok ('/', after)
  | 'b' :: after => .ok ('\x08', after)
  | 'f' :: after => .ok ('\x0c', after)
  | 'n' :: after => .ok ('\n', after)
  | 'r' :: after => .ok ('\r', after)
  | 't' :: after => .ok ('\t', after)
  | 'u' :: after => readUnicode after
  | _ => .error (.at .invalidEscape rest)

/-- The characters up to the closing quote; each round takes a character or an escape. -/
def readChars : Nat → List Char → List Char → Except Failure (List Char × List Char)
  | 0, _, rest => .error (.before .unfinishedString rest)
  | rounds + 1, done, rest =>
    match rest with
    | [] => .error (.before .unfinishedString [])
    | '"' :: after => .ok (done.reverse, after)
    | '\\' :: after =>
      match readEscape after with
      | .ok (c, after) => readChars rounds (c :: done) after
      | .error e => .error e
    | c :: after =>
      if c.toNat < 0x20 then .error (.at .controlCharacter rest)
      else readChars rounds (c :: done) after

/-- A string after its opening quote. -/
def readString (rest : List Char) : Except Failure (String × List Char) :=
  (readChars (rest.length + 1) [] rest).map fun r => (String.ofList r.1, r.2)

/-! ### Values -/

/-- The letters of a word that has begun. -/
def readWord (value : Json) : List Char → Reader Json
  | [], rest => .ok (value, rest)
  | letter :: word, rest =>
    match rest with
    | [] => .error (.before .unfinishedValue [])
    | c :: after =>
      if c = letter then readWord value word after else .error (.at .expectedIdent rest)

/-- The items of a list after its bracket or after an item. -/
def readItems (item : Reader Json) : Nat → List Json → Reader Json
  | 0, _, rest => .error (.before .unfinishedList rest)
  | rounds + 1, done, rest =>
    match skipBlanks rest with
    | [] => .error (.before .unfinishedList [])
    | ']' :: after => .ok (.arr done.reverse, after)
    | ',' :: after =>
      if done.isEmpty then .error (.at .expectedValue (',' :: after))
      else
        match skipBlanks after with
        | [] => .error (.before .unfinishedValue [])
        | ']' :: last => .error (.at .trailingComma (']' :: last))
        | next =>
          match item next with
          | .ok (value, after) => readItems item rounds (value :: done) after
          | .error e => .error e
    | next =>
      if !done.isEmpty then .error (.at .expectedListCommaOrEnd next)
      else
        match item next with
        | .ok (value, after) => readItems item rounds (value :: done) after
        | .error e => .error e

/-- One member, from its opening quote. -/
def readMember (item : Reader Json) (rest : List Char) :
    Except Failure ((String × Json) × List Char) := do
  let (key, after) ← readString (rest.drop 1)
  match skipBlanks after with
  | [] => throw (.before .unfinishedObject [])
  | ':' :: after =>
    let (value, after) ← item after
    pure ((key, value), after)
  | other => throw (.at .expectedColon other)

/-- The members of an object after its brace or after a member. -/
def readMembers (item : Reader Json) : Nat → List (String × Json) → Reader Json
  | 0, _, rest => .error (.before .unfinishedObject rest)
  | rounds + 1, done, rest =>
    match skipBlanks rest with
    | [] => .error (.before .unfinishedObject [])
    | '}' :: after => .ok (.obj done.reverse, after)
    | c :: after =>
      if !done.isEmpty && c ≠ ',' then .error (.at .expectedObjectCommaOrEnd (c :: after))
      else
        let next := if done.isEmpty then c :: after else skipBlanks after
        match next with
        | [] => .error (.before .unfinishedValue [])
        | '"' :: _ =>
          match readMember item next with
          | .ok (member, after) => readMembers item rounds (member :: done) after
          | .error e => .error e
        | '}' :: _ => .error (.at .trailingComma next)
        | _ => .error (.at .keyMustBeString next)

/-- A value whose items, if it has any, are read by `inner`; none is the end of the
permitted nesting. -/
def readWith (inner : Option (Reader Json)) : Reader Json := fun text =>
  let rest := skipBlanks text
  match rest with
  | [] => .error (.before .unfinishedValue [])
  | 'n' :: after => readWord .null "ull".toList after
  | 't' :: after => readWord (.bool true) "rue".toList after
  | 'f' :: after => readWord (.bool false) "alse".toList after
  | '"' :: after => (readString after).map fun r => (.str r.1, r.2)
  | '-' :: after => (readNumber true after).map fun r => (.num r.1, r.2)
  | '[' :: after =>
    match inner with
    | none => .error (.at .tooDeep rest)
    | some item => readItems item (after.length + 1) [] after
  | '{' :: after =>
    match inner with
    | none => .error (.at .tooDeep rest)
    | some item => readMembers item (after.length + 1) [] after
  | c :: _ =>
    if c.isDigit then (readNumber false rest).map fun r => (.num r.1, r.2)
    else .error (.at .expectedValue rest)

/-- A value with at most `depth` levels of lists and objects. -/
def readValue : Nat → Reader Json
  | 0 => readWith none
  | depth + 1 => readWith (some (readValue depth))

/-- The deepest nesting that is read. -/
def depthLimit : Nat := 127

/-- The value at the front of a text. -/
def readFirst : Reader Json := readValue depthLimit

/-- Only blanks may follow the value. -/
def readEnd (rest : List Char) : Except Failure Unit :=
  match skipBlanks rest with
  | [] => .ok ()
  | other => .error (.at .trailingCharacters other)

/-- The whole text as one value, with the keys of its objects as they were written. -/
def readDocument (text : List Char) : Except Failure Json := do
  let (value, rest) ← readFirst text
  readEnd rest
  pure value

def parseRaw (text : String) : Except SyntaxError Json :=
  (readDocument text.toList).mapError (·.locate text.toList)

/-- The whole text as one free-form value. -/
def parse (text : String) : Except SyntaxError Json := (parseRaw text).map settle

end Json

end Schemata
