import Schemata.Assoc
import Schemata.Double.Basic

/-!
# JSON values

Members of an object keep the order in which they were written.  An object read from
text may name a key twice; `Json.settle` gives the last value of a key the place of the
first, which is how free-form objects are understood.
-/
namespace Schemata

/-- Integers stay integers; every other number is binary64. -/
inductive Number where
  | int (value : Int)
  | double (value : Double)
  deriving DecidableEq, Repr, Inhabited

inductive Json where
  | null
  | bool (value : Bool)
  | num (value : Number)
  | str (value : String)
  | arr (items : List Json)
  | obj (members : List (String × Json))
  deriving Repr, Inhabited

namespace Number

/-- An integer and a binary64 number are never equal, even at the same value. -/
def eqv : Number → Number → Bool
  | .int a, .int b => a == b
  | .double a, .double b => a.eqv b
  | _, _ => false

def toDouble : Number → Double
  | .int i => Double.ofInt i
  | .double x => x

/-- The unsigned 64-bit integer, if the number is one. -/
def toUnsigned? : Number → Option Nat
  | .int (.ofNat n) => if n < Nat.pow 2 64 then some n else none
  | _ => none

end Number

namespace Json

def asStr? : Json → Option String
  | .str s => some s
  | _ => none

def asBool? : Json → Option Bool
  | .bool b => some b
  | _ => none

def asArr? : Json → Option (List Json)
  | .arr items => some items
  | _ => none

def asObj? : Json → Option (List (String × Json))
  | .obj members => some members
  | _ => none

/-- The value of a member of an object. -/
def get? (value : Json) (key : String) : Option Json :=
  value.asObj?.bind (Assoc.get? · key)

def ofNat (n : Nat) : Json := .num (.int n)

/-- A number that JSON cannot write becomes null. -/
def ofDouble (x : Double) : Json := if x.isFinite then .num (.double x) else .null

def ofStrings (texts : List String) : Json := .arr (texts.map .str)

def ofOption (f : α → Json) : Option α → Json
  | none => .null
  | some a => f a

mutual

/-- Equality that ignores the order of members. -/
def eqv : Json → Json → Bool
  | .null, .null => true
  | .bool a, .bool b => a == b
  | .num a, .num b => a.eqv b
  | .str a, .str b => a == b
  | .arr xs, .arr ys => eqvItems xs ys
  | .obj ms, .obj ns => ms.length == ns.length && eqvMembers ms ns
  | _, _ => false

def eqvItems : List Json → List Json → Bool
  | [], [] => true
  | x :: xs, y :: ys => eqv x y && eqvItems xs ys
  | _, _ => false

/-- Every member of the first list has an equal value in the second. -/
def eqvMembers : List (String × Json) → List (String × Json) → Bool
  | [], _ => true
  | (key, value) :: rest, others =>
    (match Assoc.get? others key with
      | some other => eqv value other
      | none => false) && eqvMembers rest others

end

instance : BEq Json := ⟨eqv⟩

mutual

/-- Repeated keys are merged at every depth: the last value, in the first place. -/
def settle : Json → Json
  | .arr items => .arr (settleItems items)
  | .obj members => .obj (Assoc.ofList (settleMembers members))
  | scalar => scalar

def settleItems : List Json → List Json
  | [] => []
  | x :: xs => settle x :: settleItems xs

def settleMembers : List (String × Json) → List (String × Json)
  | [] => []
  | (key, value) :: rest => (key, settle value) :: settleMembers rest

end

end Json

end Schemata
