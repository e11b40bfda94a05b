import Schemata.Universe.Basic
import Schemata.TypeRef.Codec
import Schemata.Json.Parser

/-!
# Declarations in JSON

A document holds one declaration, a list of them, or an object whose member names the
list.  A document of any other shape is refused as a whole.
-/
namespace Schemata

/-- A member of a written object that is left out when there is nothing to say. -/
def optionMember (key : String) (value : Option Json) : List (String × Json) :=
  (value.map (key, ·)).toList

def nonEmptyMember (key : String) (items : List α) (value : List α → Json) :
    List (String × Json) :=
  if items.isEmpty then [] else [(key, value items)]

namespace Member

def fields : List String :=
  ["name", "type", "member_kind", "visibility", "static", "nullable", "directives",
    "documentation"]

def ofJson? (value : Json) : Option Member := do
  match ← Json.recordFields? fields value with
  | [name, type, kind, visibility, isStatic, nullable, directives, documentation] =>
    pure {
      name := ← Json.required? Json.str? name
      type := ← Json.required? TypeRef.ofJson? type
      kind := ← Json.defaulted? .property (Json.named? MemberKind.ofName?) kind
      visibility := ← Json.defaulted? .publicAccess (Json.named? Visibility.ofName?) visibility
      isStatic := ← Json.defaulted? false Json.bool? isStatic
      nullable := ← Json.optional? Json.bool? nullable
      directives := ← Json.defaulted? [] Directives.ofJson? directives
      documentation := ← Json.optional? Json.str? documentation }
  | _ => none

def toJson (m : Member) : Json :=
  .obj ([("name", .str m.name), ("type", m.type.toJson), ("member_kind", .str m.kind.name),
      ("visibility", .str m.visibility.name), ("static", .bool m.isStatic)]
    ++ optionMember "nullable" (m.nullable.map .bool)
    ++ nonEmptyMember "directives" m.directives Directives.toJson
    ++ optionMember "documentation" (m.documentation.map .str))

end Member

namespace Constant

/-- A constant is written as its name, or as a node. -/
def ofJson? : Json → Option Constant
  | .str name => some { name := name }
  | value => do
    match ← Json.objectFields? ["name", "directives", "documentation"] value with
    | [name, directives, documentation] =>
      pure {
        name := ← Json.required? Json.str? name
        directives := ← Json.defaulted? [] Directives.ofJson? directives
        documentation := ← Json.optional? Json.str? documentation }
    | _ => none

def toJson (c : Constant) : Json :=
  .obj (("name", .str c.name)
    :: nonEmptyMember "directives" c.directives Directives.toJson
    ++ optionMember "documentation" (c.documentation.map .str))

end Constant

namespace ConstructorParam

def ofJson? (value : Json) : Option ConstructorParam := do
  match ← Json.recordFields? ["name", "nullable"] value with
  | [name, nullable] =>
    pure ⟨← Json.required? Json.str? name, ← Json.defaulted? false Json.bool? nullable⟩
  | _ => none

def toJson (p : ConstructorParam) : Json :=
  .obj [("name", .str p.name), ("nullable", .bool p.nullable)]

end ConstructorParam

namespace Decl

def fields : List String :=
  ["name", "kind", "primitive", "type_params", "super_type", "interfaces", "members",
    "constants", "constructor", "enum_value_type", "directives", "documentation"]

def ofJson? (value : Json) : Option Decl := do
  match ← Json.recordFields? fields value with
  | [name, kind, primitive, params, superType, interfaces, members, constants, constructor,
      enumValueType, directives, documentation] =>
    pure {
      name := ← Json.required? Json.str? name
      kind := ← Json.defaulted? .record (Json.named? DeclKind.ofName?) kind
      primitive := ← Json.optional? (Json.named? Primitive.ofName?) primitive
      params := ← Json.defaulted? [] (Json.list? TypeParam.ofJson?) params
      superType := ← Json.optional? TypeRef.ofJson? superType
      interfaces := ← Json.defaulted? [] TypeRef.listOfJson? interfaces
      members := ← Json.defaulted? [] (Json.list? Member.ofJson?) members
      constants := ← Json.defaulted? [] (Json.list? Constant.ofJson?) constants
      constructor := ← Json.defaulted? [] (Json.list? ConstructorParam.ofJson?) constructor
      enumValueType := ← Json.optional? TypeRef.ofJson? enumValueType
      directives := ← Json.defaulted? [] Directives.ofJson? directives
      documentation := ← Json.optional? Json.str? documentation }
  | _ => none

def toJson (d : Decl) : Json :=
  .obj ([("name", .str d.name), ("kind", .str d.kind.name)]
    ++ optionMember "primitive" (d.primitive.map (.str ·.name))
    ++ nonEmptyMember "type_params" d.params (.arr <| ·.map TypeParam.toJson)
    ++ optionMember "super_type" (d.superType.map TypeRef.toJson)
    ++ nonEmptyMember "interfaces" d.interfaces (.arr <| ·.map TypeRef.toJson)
    ++ nonEmptyMember "members" d.members (.arr <| ·.map Member.toJson)
    ++ nonEmptyMember "constants" d.constants (.arr <| ·.map Constant.toJson)
    ++ nonEmptyMember "constructor" d.constructor (.arr <| ·.map ConstructorParam.toJson)
    ++ optionMember "enum_value_type" (d.enumValueType.map TypeRef.toJson)
    ++ nonEmptyMember "directives" d.directives Directives.toJson
    ++ optionMember "documentation" (d.documentation.map .str))

/-- The declarations of a document. -/
def listOfDocument? (value : Json) : Option (List Decl) :=
  (do
    match ← Json.objectFields? ["types"] value with
    | [types] => Json.required? (Json.list? ofJson?) types
    | _ => none)
  <|> Json.list? ofJson? value
  <|> (ofJson? value).map ([·])

/-- Why a text holds no declarations. -/
inductive DocumentError where
  | syntaxError (e : Json.SyntaxError)
  | shape
  deriving DecidableEq, Repr

def DocumentError.reason : DocumentError → String
  | .syntaxError e => e.message
  | .shape => "data did not match any variant of untagged enum DeclarationFile"

def DocumentError.message (e : DocumentError) : String := "JSON error: " ++ e.reason

/-- The declarations of a text.  The shape of the first value is looked at before what may
follow it. -/
def parseDocument (text : String) : Except DocumentError (List Decl) :=
  let chars := text.toList
  let located (f : Json.Failure) : DocumentError := .syntaxError (f.locate chars)
  match Json.readFirst chars with
  | .error f => .error (located f)
  | .ok (value, rest) =>
    match listOfDocument? value with
    | none => .error .shape
    | some decls =>
      match Json.readEnd rest with
      | .error f => .error (located f)
      | .ok () => .ok decls

end Decl

end Schemata
