import Schemata.Json.Basic
import Schemata.Text.Integer
import Schemata.Text.Split

/-!
# Dates and times of TOML

A date or a time is text in one spelling.  It is a value of its own kind, which is kept
as a table with a marked name; any other table that begins with this name stands for a date,
too.
-/
namespace Schemata

namespace Toml

/-! ### Days -/

/-- A number of exactly this many digits. -/
def fixed? (width : Nat) (text : List Char) : Option Nat :=
  if text.length = width then Text.digits? text else none

def isLeapYear (year : Nat) : Bool := year % 4 = 0 && (year % 100 ≠ 0 || year % 400 = 0)

def daysOf (year month : Nat) : Nat :=
  if month = 2 then (if isLeapYear year then 29 else 28)
  else if [4, 6, 9, 11].contains month then 30 else 31

/-- A date of the calendar. -/
def isDate (text : List Char) : Bool :=
  match Text.splitOn (· = '-') text with
  | [year, month, day] =>
    match fixed? 4 year, fixed? 2 month, fixed? 2 day with
    | some y, some m, some d => 1 ≤ m && m ≤ 12 && 1 ≤ d && d ≤ daysOf y m
    | _, _, _ => false
  | _ => false

/-! ### Times -/

/-- How far the numbers of a time may go. -/
structure TimeRange where
  lastHour : Nat
  /-- The hours and minutes that universal time may be away. -/
  admitsOffset : Nat → Nat → Bool

/-- The times that can be written as values. -/
def TimeRange.written : TimeRange := ⟨23, fun hours minutes => hours ≤ 23 && minutes ≤ 59⟩

/-- The times that a marked text may hold. -/
def TimeRange.marked : TimeRange := ⟨24, fun hours minutes => 60 * hours + minutes ≤ 24 * 60⟩

/-- A fraction of a second: at most nine digits count, and final zeros do not. -/
def secondFraction? (text : List Char) : Option (List Char) :=
  match text with
  | [] => some []
  | '.' :: digits =>
    if digits.isEmpty || !digits.all Char.isDigit then none
    else
      let kept := ((digits.take 9).reverse.dropWhile (· = '0')).reverse
      some (if kept.isEmpty then [] else '.' :: kept)
  | _ => none

/-- A time of day. -/
def time? (r : TimeRange) (text : List Char) : Option (List Char) := do
  let clock := text.takeWhile (· ≠ '.')
  let fraction ← secondFraction? (text.dropWhile (· ≠ '.'))
  match Text.splitOn (· = ':') clock with
  | [hour, minute, second] =>
    let h ← fixed? 2 hour
    let m ← fixed? 2 minute
    let s ← fixed? 2 second
    if h ≤ r.lastHour && m ≤ 59 && s ≤ 60 then some (clock ++ fraction) else none
  | _ => none

def twoDigits (n : Nat) : List Char := [Nat.digitChar (n / 10), Nat.digitChar (n % 10)]

/-- The distance from universal time after its sign; no distance is positive. -/
def offset? (r : TimeRange) (sign : Char) (text : List Char) : Option (List Char) :=
  match Text.splitOn (· = ':') text with
  | [hour, minute] => do
    let h ← fixed? 2 hour
    let m ← fixed? 2 minute
    let total := 60 * h + m
    if r.admitsOffset h m then
      some ((if total = 0 then '+' else sign)
        :: twoDigits (total / 60) ++ ':' :: twoDigits (total % 60))
    else none
  | _ => none

/-- A time of day, perhaps at a distance from universal time. -/
def zonedTime? (r : TimeRange) (text : List Char) : Option (List Char) :=
  let isMark (c : Char) : Bool := c = 'Z' || c = 'z' || c = '+' || c = '-'
  let clock := text.takeWhile (!isMark ·)
  match text.dropWhile (!isMark ·) with
  | [] => time? r clock
  | [mark] => if mark = 'Z' ∨ mark = 'z' then (time? r clock).map (· ++ ['Z']) else none
  | sign :: rest =>
    if sign = 'Z' ∨ sign = 'z' then none
    else do
      let offset ← offset? r sign rest
      let time ← time? r clock
      pure (time ++ offset)

/-- A date and the time that follows it. -/
def dateThenTime? (r : TimeRange) (date time : List Char) : Option (List Char) :=
  if isDate date then (zonedTime? r time).map fun t => date ++ 'T' :: t else none

/-- A date, a time, or both with a letter between them. -/
def dateTime? (word : List Char) : Option (List Char) :=
  if isDate word then some word
  else
    match time? .written word with
    | some t => some t
    | none =>
      match word.drop 10 with
      | 'T' :: time => dateThenTime? .written (word.take 10) time
      | 't' :: time => dateThenTime? .written (word.take 10) time
      | _ => none

/-- The date or time of a marked text; a blank may stand between both. -/
def markedDateTime? (text : List Char) : Option (List Char) :=
  if (text.drop 2).head? = some ':' then time? .marked text
  else if isDate text then some text
  else
    match text.drop 10 with
    | c :: time =>
      if c = 'T' ∨ c = 't' ∨ c = ' ' then dateThenTime? .marked (text.take 10) time else none
    | [] => none

/-! ### Marks -/

/-- The name that marks a date. -/
def dateMark : String := "$__toml_private_datetime"

def dateValue (text : List Char) : Json := .obj [(dateMark, .str (String.ofList text))]

/-- The text of a marked value. -/
def datedText? : Json → Option Json
  | .str text => (markedDateTime? text.toList).map (.str <| String.ofList ·)
  | _ => none

mutual

/-- The value with all dates as texts; none if a mark stands before anything else. -/
def dated? : Json → Option Json
  | .obj [] => some (.obj [])
  | .obj ((name, value) :: rest) =>
    if name = dateMark then datedText? value
    else do
      let value ← dated? value
      let rest ← datedMembers? rest
      pure (.obj ((name, value) :: rest))
  | .arr items => (datedItems? items).map .arr
  | value => some value

def datedItems? : List Json → Option (List Json)
  | [] => some []
  | item :: rest => do
    let item ← dated? item
    let rest ← datedItems? rest
    pure (item :: rest)

def datedMembers? : List (String × Json) → Option (List (String × Json))
  | [] => some []
  | (name, value) :: rest => do
    let value ← dated? value
    let rest ← datedMembers? rest
    pure ((name, value) :: rest)

end

end Toml

end Schemata
