import Schemata.Double.Reading
import Schemata.Json.Parser
import Schemata.Toml.Date

/-!
# Numbers and truth values of TOML

Underscores may stand between digits.  Integers have 64 bits.  A word that is no number and
no truth value is a date or a time.
-/
namespace Schemata

namespace Toml

def isScalarChar (c : Char) : Bool :=
  c.isAlphanum || c = '_' || c = '+' || c = '-' || c = '.' || c = ':'

/-- Digits with single underscores between them. -/
def grouped? (isDigit : Char → Bool) (text : List Char) : Option (List Char) :=
  let groups := Text.splitOn (· = '_') text
  if groups.all fun g => !g.isEmpty && g.all isDigit then some groups.flatten else none

/-- Decimal digits without needless zeros in front. -/
def decimalDigits? (text : List Char) : Option (List Char) :=
  (grouped? Char.isDigit text).filter fun ds => ds.head? ≠ some '0' || ds.length = 1

def digitIn? (base : Nat) (c : Char) : Option Nat := (Json.hexValue? c).filter (· < base)

/-- An integer in another base. -/
def based? (base : Nat) (text : List Char) : Option Json := do
  let digits ← grouped? (fun c => (digitIn? base c).isSome) text
  let n ← digits.foldlM (fun n c => (digitIn? base c).map (base * n + ·)) 0
  if n < Nat.pow 2 63 then some (.num (.int n)) else none

def integer? (text : List Char) : Option Json := do
  let (negative, body) := Double.splitSign text
  let digits ← decimalDigits? body
  let i ← Text.signed? 64 (if negative then '-' :: digits else digits)
  pure (.num (.int i))

/-- The digits of a fraction, with its point. -/
def fraction? : List Char → Option (List Char)
  | [] => some []
  | '.' :: rest => (grouped? Char.isDigit rest).map ('.' :: ·)
  | _ => none

/-- An exponent, with its mark and sign. -/
def exponent? : List Char → Option (List Char)
  | [] => some []
  | mark :: rest =>
    let (negative, body) := Double.splitSign rest
    (grouped? Char.isDigit body).map fun ds => mark :: (if negative then '-' :: ds else ds)

/-- A number with a fraction or an exponent. -/
def float? (text : List Char) : Option Json := do
  let (negative, body) := Double.splitSign text
  let isMark (c : Char) : Bool := c = 'e' || c = 'E'
  let mantissa := body.takeWhile (!isMark ·)
  let whole ← decimalDigits? (mantissa.takeWhile (· ≠ '.'))
  let fraction ← fraction? (mantissa.dropWhile (· ≠ '.'))
  let exponent ← exponent? (body.dropWhile (!isMark ·))
  if fraction.isEmpty && exponent.isEmpty then none
  else
    let sign := if negative then ['-'] else []
    let x ← Double.ofText? (sign ++ whole ++ fraction ++ exponent)
    if x = .infinite false then none else some (.num (.double x))

/-- The words for what is no number with digits. -/
def special? (text : List Char) : Option Json :=
  let (negative, body) := Double.splitSign text
  if body = "inf".toList then some (.num (.double (.infinite negative)))
  else if body = "nan".toList then some (.num (.double .nan))
  else none

/-- The value of a word. -/
def word? (word : List Char) : Option Json :=
  match word with
  | '0' :: 'x' :: digits => based? 16 digits
  | '0' :: 'o' :: digits => based? 8 digits
  | '0' :: 'b' :: digits => based? 2 digits
  | _ =>
    if word = "true".toList then some (.bool true)
    else if word = "false".toList then some (.bool false)
    else (integer? word).or ((float? word).or ((special? word).or ((dateTime? word).map dateValue)))

end Toml

end Schemata
