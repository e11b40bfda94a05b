import Schemata.Json.Basic

/-!
# Reading typed data out of JSON

A reader of a type gives none for a value of another shape.  A record is written as an
object, in which a declared field may stand only once and other members are ignored, or as
a list of its fields in their declared order, of which the last may be missing.
-/
namespace Schemata

namespace Json

/-- Every declared field stands at most once. -/
def fieldsOnce (fields : List String) (members : List (String × Json)) : Bool :=
  fields.all fun field => members.countP (·.1 = field) ≤ 1

/-- The fields of an object. -/
def objectFields? (fields : List String) : Json → Option (List (Option Json))
  | .obj members =>
    if fieldsOnce fields members then some (fields.map (Assoc.get? members)) else none
  | _ => none

/-- The fields of a record that is written as a list.  Items after the last field do not
count. -/
def listedFields (fields : List String) (items : List Json) : List (Option Json) :=
  ((items.take fields.length).map some) ++ List.replicate (fields.length - items.length) none

/-- The fields of a record, by name or by position. -/
def recordFields? (fields : List String) : Json → Option (List (Option Json))
  | .arr items => if items.length ≤ fields.length then some (listedFields fields items) else none
  | value => objectFields? fields value

/-- The fields of a record, as a list of any length. -/
def leadingFields? (fields : List String) : Json → Option (List (Option Json))
  | .arr items => some (listedFields fields items)
  | value => objectFields? fields value

/-- A field that has to be there. -/
def required? (read : Json → Option α) (field : Option Json) : Option α := field.bind read

/-- A field that may be missing or null. -/
def optional? (read : Json → Option α) : Option Json → Option (Option α)
  | none => some none
  | some .null => some none
  | some value => (read value).map some

/-- A field with a value to fall back on when it is missing; null is no such case. -/
def defaulted? (fallback : α) (read : Json → Option α) : Option Json → Option α
  | none => some fallback
  | some value => read value

def str? : Json → Option String := asStr?

def bool? : Json → Option Bool := asBool?

/-- An unsigned integer of 64 bits. -/
def unsigned? : Json → Option Nat
  | .num n => n.toUnsigned?
  | _ => none

def double? : Json → Option Double
  | .num n => some n.toDouble
  | _ => none

/-- Any value, the repeated keys of its objects merged. -/
def any? (value : Json) : Option Json := some value.settle

def list? (read : Json → Option α) : Json → Option (List α)
  | .arr items => items.mapM read
  | _ => none

/-- A free-form object whose values are all read alike. -/
def map? (read : Json → Option α) : Json → Option (Assoc String α)
  | .obj members =>
    (members.mapM fun member => (read member.2).map (member.1, ·)).map Assoc.ofList
  | _ => none

/-- A value of a closed list of names: the name itself, or an object that maps it to
null. -/
def named? (ofName? : String → Option α) : Json → Option α
  | .str name => ofName? name
  | .obj [(name, .null)] => ofName? name
  | _ => none

/-- How the fields of a record and the scalars in them are understood. -/
structure FieldReader where
  fields? : List String → Json → Option (List (Option Json))
  text? : Json → Option String
  truth? : Json → Option Bool
  /-- The name of a value from a closed list. -/
  choice? : Json → Option String

/-- Every field is written as what it is. -/
def exactly : FieldReader := ⟨recordFields?, str?, bool?, named? some⟩

/-- A value of a closed list. -/
def FieldReader.chosen? (r : FieldReader) (ofName? : String → Option α) (value : Json) :
    Option α :=
  (r.choice? value).bind ofName?

end Json

end Schemata
