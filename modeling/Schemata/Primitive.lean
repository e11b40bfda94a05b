import Schemata.Schema.Basic

/-!
# Value types

The value types that every universe declares, each with a fixed type and format.
-/
namespace Schemata

inductive Primitive where
  | string | char | boolean | byte | short | int | long | float | double | bigInteger
  | bigDecimal | number | uuid | uri | url | date | dateTime | time | file | object
  deriving DecidableEq, Repr, Inhabited

namespace Primitive

def all : List Primitive :=
  [.string, .char, .boolean, .byte, .short, .int, .long, .float, .double, .bigInteger,
    .bigDecimal, .number, .uuid, .uri, .url, .date, .dateTime, .time, .file, .object]

/-- The name under which the type is declared. -/
def name : Primitive → String
  | .string => "string"
  | .char => "char"
  | .boolean => "boolean"
  | .byte => "byte"
  | .short => "short"
  | .int => "int"
  | .long => "long"
  | .float => "float"
  | .double => "double"
  | .bigInteger => "big-integer"
  | .bigDecimal => "big-decimal"
  | .number => "number"
  | .uuid => "uuid"
  | .uri => "uri"
  | .url => "url"
  | .date => "date"
  | .dateTime => "date-time"
  | .time => "time"
  | .file => "file"
  | .object => "object"

def ofName? (name : String) : Option Primitive := all.find? (·.name = name)

/-- The type that a name in a schema directive means: a type of a document or a format. -/
def ofCommonName? (name : String) : Option Primitive :=
  match name with
  | "string" => some .string
  | "email" => some .string
  | "password" => some .string
  | "boolean" => some .boolean
  | "integer" => some .int
  | "int" => some .int
  | "int32" => some .int
  | "long" => some .long
  | "int64" => some .long
  | "float" => some .float
  | "double" => some .double
  | "number" => some .bigDecimal
  | "byte" => some .byte
  | "binary" => some .file
  | "file" => some .file
  | "uri" => some .uri
  | "url" => some .url
  | "uuid" => some .uuid
  | "date" => some .date
  | "date-time" => some .dateTime
  | "partial-time" => some .time
  | "time" => some .time
  | "object" => some .object
  | _ => none

def typeAndFormat : Primitive → SchemaType × Option String
  | .string => (.string, none)
  | .char => (.string, none)
  | .boolean => (.boolean, none)
  | .byte => (.integer, some "int32")
  | .short => (.integer, some "int32")
  | .int => (.integer, some "int32")
  | .long => (.integer, some "int64")
  | .bigInteger => (.integer, none)
  | .float => (.number, some "float")
  | .double => (.number, some "double")
  | .bigDecimal => (.number, none)
  | .number => (.number, none)
  | .uuid => (.string, some "uuid")
  | .uri => (.string, some "uri")
  | .url => (.string, some "url")
  | .date => (.string, some "date")
  | .dateTime => (.string, some "date-time")
  | .time => (.string, some "partial-time")
  | .file => (.string, some "binary")
  | .object => (.object, none)

def schema (p : Primitive) : Schema :=
  { type := some p.typeAndFormat.1, facets.format := p.typeAndFormat.2 }

theorem mem_all (p : Primitive) : p ∈ all := by
  cases p <;> decide

@[simp] theorem ofName?_name (p : Primitive) : ofName? p.name = some p := by
  cases p <;> decide

end Primitive

end Schemata
