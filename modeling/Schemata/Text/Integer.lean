import Schemata.Double.Reading

/-!
# Integers in text

Decimal digits after an optional sign, within the range of a fixed width.  A minus is a
sign of signed integers only.
-/
namespace Schemata

namespace Text

/-- The value of a text of one or more digits. -/
def digits? (text : List Char) : Option Nat :=
  if !text.isEmpty && text.all Char.isDigit then some (Double.digitsValue text) else none

/-- An unsigned integer below `2 ^ bits`. -/
def unsigned? (bits : Nat) (text : List Char) : Option Nat :=
  let body := match text with
    | '+' :: rest => rest
    | _ => text
  (digits? body).filter (· < Nat.pow 2 bits)

def inSignedRange (bits : Nat) (i : Int) : Bool :=
  -(Nat.pow 2 (bits - 1) : Int) ≤ i && i < (Nat.pow 2 (bits - 1) : Int)

/-- A signed integer of `bits` bits. -/
def signed? (bits : Nat) (text : List Char) : Option Int :=
  let (negative, body) := Double.splitSign text
  ((digits? body).map fun n => if negative then -(n : Int) else (n : Int)).filter
    (inSignedRange bits)

end Text

end Schemata
