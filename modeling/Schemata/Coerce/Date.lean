import Schemata.Double.Reading
import Schemata.Text.Blank

/-!
# Dates

Calendar dates of the proleptic Gregorian calendar and points in time in internet format.
-/
namespace Schemata

namespace Date

def isLeap (year : Int) : Bool := year % 4 = 0 && (year % 100 ≠ 0 || year % 400 = 0)

def daysIn (year : Int) (month : Nat) : Nat :=
  if month = 2 then (if isLeap year then 29 else 28)
  else if month = 4 ∨ month = 6 ∨ month = 9 ∨ month = 11 then 30
  else 31

/-- Years are bounded by what days can be counted in. -/
def isDay (year : Int) (month day : Nat) : Bool :=
  -262143 ≤ year && year ≤ 262142 && 1 ≤ month && month ≤ 12 && 1 ≤ day
    && day ≤ daysIn year month

/-- The number that the first digits of a text make, at least one and at most `most`. -/
def number? (most : Nat) (text : List Char) : Option (Nat × List Char) :=
  let digits := (text.takeWhile Char.isDigit).take most
  if digits.isEmpty then none else some (Double.digitsValue digits, text.drop digits.length)

/-- A number of exactly so many digits. -/
def exactly? (count : Nat) (text : List Char) : Option (Nat × List Char) :=
  let digits := text.take count
  if digits.length = count ∧ digits.all Char.isDigit then
    some (Double.digitsValue digits, text.drop count)
  else none

def expect? (c : Char) : List Char → Option (List Char)
  | d :: rest => if c = d then some rest else none
  | [] => none

/-- A year of at most four digits, or of any number of digits after a sign. -/
def year? (text : List Char) : Option (Int × List Char) :=
  match text with
  | '-' :: rest => (number? rest.length rest).map fun r => (-(r.1 : Int), r.2)
  | '+' :: rest => (number? rest.length rest).map fun r => ((r.1 : Int), r.2)
  | _ => (number? 4 text).map fun r => ((r.1 : Int), r.2)

/-- Year, month and day between dashes; blanks may stand before each of them. -/
def isDate (text : List Char) : Bool :=
  (do
    let (year, rest) ← year? (Text.trimStart text)
    let rest ← expect? '-' rest
    let (month, rest) ← number? 2 (Text.trimStart rest)
    let rest ← expect? '-' rest
    let (day, rest) ← number? 2 (Text.trimStart rest)
    if rest.isEmpty then some (isDay year month day) else none).getD false

/-- The fraction of a second, if a point announces one. -/
def fraction? (text : List Char) : Option (List Char) :=
  match text with
  | '.' :: rest => (number? 1 rest).map fun _ => rest.dropWhile Char.isDigit
  | _ => some text

/-- Hours and minutes after the sign of an offset, less than a day. -/
def isOffset (text : List Char) : Bool :=
  (do
    let (hours, rest) ← exactly? 2 text
    let rest ← expect? ':' rest
    let (minutes, rest) ← exactly? 2 rest
    if rest.isEmpty then some (decide (hours < 24 ∧ minutes < 60)) else none).getD false

def minusSign : Char := Char.ofNat 0x2212

/-- The zone at the end of a point in time. -/
def isZone : List Char → Bool
  | [c] => c = 'Z' || c = 'z'
  | c :: rest => (c = '+' || c = '-' || c = minusSign) && isOffset rest
  | [] => false

/-- A point in time; a minute may have a leap second. -/
def isDateTime (text : List Char) : Bool :=
  (do
    let (year, rest) ← exactly? 4 text
    let rest ← expect? '-' rest
    let (month, rest) ← exactly? 2 rest
    let rest ← expect? '-' rest
    let (day, rest) ← exactly? 2 rest
    let rest ← (expect? 'T' rest).or ((expect? 't' rest).or (expect? ' ' rest))
    let (hour, rest) ← exactly? 2 rest
    let rest ← expect? ':' rest
    let (minute, rest) ← exactly? 2 rest
    let rest ← expect? ':' rest
    let (second, rest) ← exactly? 2 rest
    let rest ← fraction? rest
    some (isDay year month day && hour < 24 && minute < 60 && second ≤ 60 && isZone rest)).getD
    false

end Date

end Schemata
