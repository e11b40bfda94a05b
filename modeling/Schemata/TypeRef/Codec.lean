import Schemata.TypeRef.Parser
import Schemata.Json.Decode

/-!
# Type occurrences in JSON

An occurrence is written as its text where the text says all, and as a node otherwise.  A
node is read as the first of these that fits: an array, a placeholder, a wildcard, a named
type.
-/
namespace Schemata

namespace TypeRef

mutual

def toJson : TypeRef → Json
  | .named name args directives =>
    if isPlain (.named name args directives) then .str (display (.named name args directives))
    else
      .obj (("name", .str name)
        :: (if args.isEmpty then [] else [("args", .arr (listToJson args))])
        ++ (if directives.isEmpty then [] else [("directives", directives.toJson)]))
  | .array element =>
    if isPlain element then .str (display (.array element))
    else .obj [("array", toJson element)]
  | .placeholder name bounds =>
    .obj (("placeholder", .str name)
      :: (if bounds.isEmpty then [] else [("bounds", .arr (listToJson bounds))]))
  | .wildcard bounds => .obj [("wildcard", .arr (listToJson bounds))]

def listToJson : List TypeRef → List Json
  | [] => []
  | t :: rest => toJson t :: listToJson rest

end

/-- What a member of a node may be read as. -/
structure Part where
  type : Option TypeRef
  list : Option (List TypeRef)
  value : Json

/-- The members that a form declares stand once each. -/
def form? (fields : List String) (parts : List (String × Part)) (build : Option TypeRef) :
    Option TypeRef :=
  if fields.all fun field => parts.countP (·.1 = field) ≤ 1 then build else none

/-- A list that may be missing. -/
def listPart? : Option Part → Option (List TypeRef)
  | none => some []
  | some part => part.list

def textPart? (part : Option Part) : Option String := part.bind (·.value.asStr?)

/-- A node from its members. -/
def ofParts? (parts : List (String × Part)) : Option TypeRef :=
  let get := Assoc.get? parts
  form? ["array"] parts (do let part ← get "array"; pure (.array (← part.type)))
  <|> form? ["placeholder", "bounds"] parts (do
    pure (.placeholder (← textPart? (get "placeholder")) (← listPart? (get "bounds"))))
  <|> form? ["wildcard"] parts (do let part ← get "wildcard"; pure (.wildcard (← part.list)))
  <|> form? ["name", "args", "directives"] parts (do
    let name ← textPart? (get "name")
    let args ← listPart? (get "args")
    let directives ← match get "directives" with
      | none => some []
      | some part => Directives.ofJson? part.value
    pure (.named name args directives))

mutual

def ofJson? : Json → Option TypeRef
  | .str text => parse? text
  | .obj members => ofParts? (partsOf members)
  | _ => none

def listOfJson? : Json → Option (List TypeRef)
  | .arr items => itemsOf? items
  | _ => none

def itemsOf? : List Json → Option (List TypeRef)
  | [] => some []
  | value :: rest => do
    let t ← ofJson? value
    let others ← itemsOf? rest
    pure (t :: others)

def partsOf : List (String × Json) → List (String × Part)
  | [] => []
  | (key, value) :: rest => (key, ⟨ofJson? value, listOfJson? value, value⟩) :: partsOf rest

end

end TypeRef

/-- A parameter is written as its name, or as a node with bounds. -/
def TypeParam.ofJson? : Json → Option TypeParam
  | .str name => some ⟨name, []⟩
  | value => do
    match ← Json.objectFields? ["name", "bounds"] value with
    | [name, bounds] =>
      pure ⟨← Json.required? Json.str? name,
        ← Json.defaulted? [] TypeRef.listOfJson? bounds⟩
    | _ => none

def TypeParam.toJson (p : TypeParam) : Json :=
  .obj (("name", .str p.name)
    :: (if p.bounds.isEmpty then [] else [("bounds", .arr (TypeRef.listToJson p.bounds))]))

end Schemata
