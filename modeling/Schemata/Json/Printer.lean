import Schemata.Json.Basic
import Schemata.Double.Shortest

/-!
# Writing JSON

Only the quote, the backslash and the characters below U+0020 are escaped.  A number is
written with the fewest digits that read back: positionally from 1e-5 up to 1e16 and at
least one decimal, with a mark, a sign of the exponent that is never left out for
positive ones, and no padding elsewhere.
-/
namespace Schemata

/-- How decimal digits become text. -/
structure DecimalFormat where
  /-- Positional when the decimal point falls at most this far right of the first digit. -/
  pointMax : Int
  /-- Positional when the decimal point falls more than this far left of the first digit. -/
  pointMin : Int
  /-- What follows the digits of a positional number without fraction. -/
  wholeTail : List Char
  exponentMark : Char
  /-- The sign of an exponent that is not negative. -/
  plus : List Char

namespace DecimalFormat

def digits (n : Nat) : List Char := Nat.toDigits 10 n

def zeros (n : Nat) : List Char := List.replicate n '0'

def exponent (f : DecimalFormat) (e : Int) : List Char :=
  f.exponentMark :: (if e < 0 then '-' :: digits (-e).toNat else f.plus ++ digits e.toNat)

/-- Writes `n · 10 ^ e` for a positive `n` without final zeros. -/
def write (f : DecimalFormat) (n : Nat) (e : Int) : List Char :=
  let ds := digits n
  let point : Int := ds.length + e
  if 0 ≤ e ∧ point ≤ f.pointMax then ds ++ zeros e.toNat ++ f.wholeTail
  else if 0 < point ∧ point ≤ f.pointMax then
    ds.take point.toNat ++ '.' :: ds.drop point.toNat
  else if f.pointMin < point ∧ point ≤ 0 then '0' :: '.' :: zeros (-point).toNat ++ ds
  else
    match ds with
    | [d] => d :: f.exponent (point - 1)
    | d :: rest => d :: '.' :: rest ++ f.exponent (point - 1)
    | [] => []

end DecimalFormat

namespace Json

/-- Numbers are positional from 1e-5 up to 1e16, and a point shows that they are no
integers. -/
def decimalFormat : DecimalFormat := ⟨16, -5, ['.', '0'], 'e', ['+']⟩

def writeInt (i : Int) : List Char :=
  if i < 0 then '-' :: DecimalFormat.digits i.natAbs else DecimalFormat.digits i.natAbs

def writeDouble : Double → List Char
  | .finite negative significand exponent =>
    let sign := if negative then ['-'] else []
    if significand = 0 then sign ++ ['0', '.', '0']
    else
      let (n, e) := Double.shortest significand exponent
      sign ++ decimalFormat.write n e
  | _ => "null".toList

def writeNumber : Number → List Char
  | .int i => writeInt i
  | .double x => writeDouble x

def hexDigit (n : Nat) : Char :=
  if n < 10 then Char.ofNat ('0'.toNat + n) else Char.ofNat ('a'.toNat + n - 10)

/-- One character inside quotes. -/
def escapeChar (c : Char) : List Char :=
  if c = '"' then ['\\', '"']
  else if c = '\\' then ['\\', '\\']
  else if c = '\x08' then ['\\', 'b']
  else if c = '\x09' then ['\\', 't']
  else if c = '\x0a' then ['\\', 'n']
  else if c = '\x0c' then ['\\', 'f']
  else if c = '\x0d' then ['\\', 'r']
  else if c.toNat < 0x20 then
    ['\\', 'u', '0', '0', hexDigit (c.toNat / 16), hexDigit (c.toNat % 16)]
  else [c]

def writeString (s : String) : List Char :=
  '"' :: s.toList.flatMap escapeChar ++ ['"']

mutual

/-- Text without any blank between tokens. -/
def write : Json → List Char
  | .null => "null".toList
  | .bool b => if b then "true".toList else "false".toList
  | .num n => writeNumber n
  | .str s => writeString s
  | .arr items => '[' :: writeItems items ++ [']']
  | .obj members => '{' :: writeMembers members ++ ['}']

def writeItems : List Json → List Char
  | [] => []
  | [x] => write x
  | x :: xs => write x ++ ',' :: writeItems xs

def writeMembers : List (String × Json) → List Char
  | [] => []
  | [(key, value)] => writeString key ++ ':' :: write value
  | (key, value) :: rest => writeString key ++ ':' :: write value ++ ',' :: writeMembers rest

end

def compact (value : Json) : String := String.ofList (write value)

def newline (depth : Nat) : List Char := '\n' :: List.replicate (2 * depth) ' '

mutual

/-- Text with one item or member a line, indented by two blanks a level. -/
def writeIndented (depth : Nat) : Json → List Char
  | .arr [] => ['[', ']']
  | .arr items => '[' :: indentedItems (depth + 1) items ++ newline depth ++ [']']
  | .obj [] => ['{', '}']
  | .obj members => '{' :: indentedMembers (depth + 1) members ++ newline depth ++ ['}']
  | scalar => write scalar

def indentedItems (depth : Nat) : List Json → List Char
  | [] => []
  | [x] => newline depth ++ writeIndented depth x
  | x :: xs => newline depth ++ writeIndented depth x ++ ',' :: indentedItems depth xs

def indentedMembers (depth : Nat) : List (String × Json) → List Char
  | [] => []
  | [(key, value)] =>
    newline depth ++ writeString key ++ ':' :: ' ' :: writeIndented depth value
  | (key, value) :: rest =>
    newline depth ++ writeString key ++ ':' :: ' ' :: writeIndented depth value
      ++ ',' :: indentedMembers depth rest

end

def pretty (value : Json) : String := String.ofList (writeIndented 0 value)

end Json

end Schemata
