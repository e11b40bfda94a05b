/-!
# Types of schema values
-/
namespace Schemata

inductive SchemaType where
  | string
  | number
  | integer
  | boolean
  | object
  | array
  | null
  deriving DecidableEq, Repr, Inhabited

namespace SchemaType

def all : List SchemaType := [.string, .number, .integer, .boolean, .object, .array, .null]

def name : SchemaType → String
  | .string => "string"
  | .number => "number"
  | .integer => "integer"
  | .boolean => "boolean"
  | .object => "object"
  | .array => "array"
  | .null => "null"

def ofName? (name : String) : Option SchemaType := all.find? (·.name = name)

@[simp] theorem ofName?_name (t : SchemaType) : ofName? t.name = some t := by
  cases t <;> decide

/-- A text that names no type. -/
structure Unknown where
  text : String
  deriving DecidableEq, Repr

def Unknown.message (e : Unknown) : String := "unknown schema type '" ++ e.text ++ "'"

def read (text : String) : Except Unknown SchemaType :=
  match ofName? text with
  | some t => .ok t
  | none => .error ⟨text⟩

end SchemaType

end Schemata
