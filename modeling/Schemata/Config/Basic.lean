import Schemata.Json.Decode
import Schemata.Text.Split
import Schemata.Universe.Codec

/-!
# Configuration
-/
namespace Schemata

/-- What happens when two origins compete for a name. -/
inductive DuplicatePolicy where
  /-- The later one gets a number. -/
  | auto
  /-- The pass fails. -/
  | error
  deriving DecidableEq, Repr, Inhabited

def DuplicatePolicy.name : DuplicatePolicy → String
  | .auto => "auto"
  | .error => "error"

def DuplicatePolicy.ofName? (name : String) : Option DuplicatePolicy :=
  [DuplicatePolicy.auto, .error].find? (·.name = name)

structure NamingConfig where
  genericSeparator : String := "_"
  innerClassSeparator : String := "."
  /-- Both separators are dropped. -/
  emptySeparators : Bool := false
  duplicates : DuplicatePolicy := .auto
  deriving DecidableEq, Repr, Inhabited

/-- What is put around the names of the schemas of a package. -/
structure PackageDecorator where
  package : String
  before : Option String := none
  after : Option String := none
  deriving DecidableEq, Repr, Inhabited

/-- A type that is compiled in place of another. -/
structure CustomSchema where
  type : String
  replacement : String
  deriving DecidableEq, Repr, Inhabited

structure Config where
  /-- The least visible fields that are still exposed. -/
  fieldVisibility : Visibility := .publicAccess
  /-- Media types that carry streams as they are. -/
  streamMediaTypes : List String := ["text/event-stream", "application/x-json-stream"]
  naming : NamingConfig := {}
  /-- Whether members of no view are in every view. -/
  defaultInclusion : Bool := true
  decorators : List PackageDecorator := []
  customSchemas : List CustomSchema := []
  deriving DecidableEq, Repr, Inhabited

namespace NamingConfig

/-- What stands around the arguments of a generic name. -/
def generic (c : NamingConfig) : String := if c.emptySeparators then "" else c.genericSeparator

/-- What stands for the mark of nested types and between arguments. -/
def inner (c : NamingConfig) : String := if c.emptySeparators then "" else c.innerClassSeparator

def fields : List String :=
  ["generic_separator", "inner_class_separator", "empty_separators", "duplicate_resolution"]

def read? (r : Json.FieldReader) (value : Json) : Option NamingConfig := do
  match ← r.fields? fields value with
  | [generic, inner, empty, duplicates] =>
    pure ⟨← Json.defaulted? "_" r.text? generic, ← Json.defaulted? "." r.text? inner,
      ← Json.defaulted? false r.truth? empty,
      ← Json.defaulted? .auto (r.chosen? DuplicatePolicy.ofName?) duplicates⟩
  | _ => none

def toJson (c : NamingConfig) : Json :=
  .obj [("generic_separator", .str c.genericSeparator),
    ("inner_class_separator", .str c.innerClassSeparator),
    ("empty_separators", .bool c.emptySeparators),
    ("duplicate_resolution", .str c.duplicates.name)]

end NamingConfig

namespace PackageDecorator

def read? (r : Json.FieldReader) (value : Json) : Option PackageDecorator := do
  match ← r.fields? ["package", "prefix", "postfix"] value with
  | [package, before, after] =>
    pure ⟨← Json.required? r.text? package, ← Json.optional? r.text? before,
      ← Json.optional? r.text? after⟩
  | _ => none

def toJson (d : PackageDecorator) : Json :=
  .obj [("package", .str d.package), ("prefix", Json.ofOption .str d.before),
    ("postfix", Json.ofOption .str d.after)]

/-- The decorated name. -/
def apply (d : PackageDecorator) (name : String) : String :=
  d.before.getD "" ++ name ++ d.after.getD ""

end PackageDecorator

namespace CustomSchema

def read? (r : Json.FieldReader) (value : Json) : Option CustomSchema := do
  match ← r.fields? ["type", "replacement"] value with
  | [type, replacement] =>
    pure ⟨← Json.required? r.text? type, ← Json.required? r.text? replacement⟩
  | _ => none

def toJson (c : CustomSchema) : Json :=
  .obj [("type", .str c.type), ("replacement", .str c.replacement)]

end CustomSchema

namespace Config

def fields : List String :=
  ["field_visibility", "stream_media_types", "naming", "json_view", "decorators",
    "custom_schemas"]

/-- The view settings hold one flag. -/
def readView? (r : Json.FieldReader) (value : Json) : Option Bool := do
  match ← r.fields? ["default_inclusion"] value with
  | [inclusion] => Json.defaulted? true r.truth? inclusion
  | _ => none

/-- A configuration; every setting may be missing. -/
def read? (r : Json.FieldReader) (value : Json) : Option Config := do
  match ← r.fields? fields value with
  | [visibility, media, naming, view, decorators, customs] =>
    pure {
      fieldVisibility := ← Json.defaulted? .publicAccess (r.chosen? Visibility.ofName?) visibility
      streamMediaTypes :=
        ← Json.defaulted? ({} : Config).streamMediaTypes (Json.list? r.text?) media
      naming := ← Json.defaulted? {} (NamingConfig.read? r) naming
      defaultInclusion := ← Json.defaulted? true (readView? r) view
      decorators := ← Json.defaulted? [] (Json.list? (PackageDecorator.read? r)) decorators
      customSchemas := ← Json.defaulted? [] (Json.list? (CustomSchema.read? r)) customs }
  | _ => none

def ofJson? (value : Json) : Option Config := read? Json.exactly value

def toJson (c : Config) : Json :=
  .obj [("field_visibility", .str c.fieldVisibility.name),
    ("stream_media_types", Json.ofStrings c.streamMediaTypes), ("naming", c.naming.toJson),
    ("json_view", .obj [("default_inclusion", .bool c.defaultInclusion)]),
    ("decorators", .arr (c.decorators.map PackageDecorator.toJson)),
    ("custom_schemas", .arr (c.customSchemas.map CustomSchema.toJson))]

def decoratorFor? (c : Config) (package : String) : Option PackageDecorator :=
  c.decorators.find? (·.package = package)

/-- The text of the type to be compiled in place of another. -/
def replacement? (c : Config) (key : String) : Option String :=
  (c.customSchemas.find? (·.type = key)).map CustomSchema.replacement

/-- Whether a media type conveys a stream of items by itself. -/
def isStreaming (c : Config) (mediaType : String) : Bool :=
  c.streamMediaTypes.any (Text.sameIgnoringCase · mediaType)

end Config

end Schemata
