import Schemata.Directive.Kind
import Schemata.Json.Basic
import Schemata.Text.Blank
import Schemata.Text.Integer

/-!
# Directives

A directive is a map of values, and an element carries at most one directive of a kind.
The accessors read a value as what it is meant to be and give none for anything else; an
empty text is no text.
-/
namespace Schemata

abbrev Directive := Assoc String Json

abbrev Directives := Assoc DirectiveKind Directive

namespace Directive

/-- A text that is not empty. -/
def text? (d : Directive) (key : String) : Option String :=
  match d.get? key with
  | some (.str s) => if s = "" then none else some s
  | _ => none

/-- The usual slot of a directive with one value. -/
def value? (d : Directive) : Option String := text? d "value"

def truth? (text : String) : Option Bool :=
  if Text.sameIgnoringCase text "true" then some true
  else if Text.sameIgnoringCase text "false" then some false
  else none

/-- A truth value, also as text in any case. -/
def flag? (d : Directive) (key : String) : Option Bool :=
  match d.get? key with
  | some (.bool b) => some b
  | some (.str s) => truth? s
  | _ => none

/-- A number, also as text. -/
def number? (d : Directive) (key : String) : Option Double :=
  match d.get? key with
  | some (.num n) => some n.toDouble
  | some (.str s) => Double.ofText? (Text.trim s.toList)
  | _ => none

/-- An unsigned integer, also as text. -/
def count? (d : Directive) (key : String) : Option Nat :=
  match d.get? key with
  | some (.num n) => n.toUnsigned?
  | some (.str s) => Text.unsigned? 64 (Text.trim s.toList)
  | _ => none

/-- The texts of a list that are not empty; a lone text is a list of one. -/
def texts (d : Directive) (key : String) : List String :=
  match d.get? key with
  | some (.str s) => if s = "" then [] else [s]
  | some (.arr items) => (items.filterMap Json.asStr?).filter (· ≠ "")
  | _ => []

/-- A map of values inside the directive. -/
def section? (d : Directive) (key : String) : Option Directive :=
  match d.get? key with
  | some (.obj members) => some members
  | _ => none

/-- Moves a value to another key. -/
def rename (d : Directive) (old new : String) : Directive :=
  match d.get? old with
  | some value => (d.erase old).insert new value
  | none => d

end Directive

namespace Directives

def has (ds : Directives) (kind : DirectiveKind) : Bool := ds.contains kind

/-- The constraints in the order of their attachment. -/
def constraints (ds : Directives) : Directives := ds.filter (·.1.isConstraint)

/-- Whether some directive hides the element. -/
def isHidden (ds : Directives) : Bool :=
  ds.has .hidden || ds.has .ignore || ds.has .backReference
    || (match ds.get? .anySetter with
        | some d => (d.flag? "enabled").getD true
        | none => false)
    || ((ds.get? .schema).bind (Directive.flag? · "hidden")).getD false

def toJson (ds : Directives) : Json :=
  .obj (ds.map fun entry => (entry.1.name, .obj entry.2))

/-- The directive that a value stands for; false stands for none. -/
def directiveOf? : Json → Option Directive
  | .obj members => some members
  | .bool true => some []
  | .null => some []
  | .bool false => none
  | scalar => some [("value", scalar)]

/-- Kinds that are not known are skipped. -/
def ofMembers (members : List (String × Json)) : Directives :=
  Assoc.ofList (members.filterMap fun member => do
    let kind ← DirectiveKind.ofName? member.1
    let directive ← directiveOf? member.2
    pure (kind, directive))

def ofJson? (value : Json) : Option Directives :=
  match value.settle with
  | .obj members => some (ofMembers members)
  | _ => none

end Directives

end Schemata
