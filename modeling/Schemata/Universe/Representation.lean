import Schemata.Coerce.Basic
import Schemata.Diagnostics
import Schemata.Universe.Basic

/-!
# What values of a type look like

The type and format against which literals of an occurrence are read, and the literals of
an enumeration.
-/
namespace Schemata

namespace Universe

/-- The representation of every type that is no enumeration. -/
def plainRepresentation (u : Universe) (t : TypeRef) : SchemaType × Option String :=
  match u.kindOf t with
  | .primitive p => p.typeAndFormat
  | .array element =>
    if u.primitiveOf? element = some .byte then (.string, some "byte") else (.array, none)
  | .iterable _ => (.array, none)
  | _ => (.object, none)

/-- The representation of an enumeration is that of its value type.  Enumerations that
represent each other are followed for at most `hops` steps, and are texts after that. -/
def enumRepresentation (u : Universe) : Nat → Decl → SchemaType × Option String
  | hops, d =>
    match d.enumValueType with
    | none => (.string, none)
    | some valueType =>
      match u.kindOf valueType with
      | .enum inner =>
        match hops with
        | 0 => (.string, none)
        | hops + 1 =>
          if inner.name = d.name then (.string, none) else enumRepresentation u hops inner
      | _ => u.plainRepresentation valueType

/-- How many enumerations may represent each other in a chain. -/
def hopLimit : Nat := 8

def representationOfEnum (u : Universe) (d : Decl) : SchemaType × Option String :=
  u.enumRepresentation hopLimit d

def representation (u : Universe) (t : TypeRef) : SchemaType × Option String :=
  match u.kindOf t with
  | .enum d => u.representationOfEnum d
  | _ => u.plainRepresentation t

end Universe

namespace Constant

/-- The text that is written for the constant in place of its name. -/
def literal? (c : Constant) : Option String :=
  (c.directives.get? .jsonProperty).bind Directive.value?

/-- The value of a constant.  A literal that does not fit is reported, and the name stands
for it. -/
def value (owner : String) (type : Option SchemaType) (format : Option String) (c : Constant) :
    Json × Diagnostics :=
  match c.literal? with
  | none => (.str c.name, [])
  | some literal =>
    match coerce literal type format with
    | .ok (some value) => (value, [])
    | .ok none => (.str c.name, [])
    | .error e =>
      (.str c.name, [.coercionFailed (owner ++ "." ++ c.name) literal e.message])

end Constant

namespace Decl

/-- The constants that are shown. -/
def visibleConstants (d : Decl) : List Constant := d.constants.filter (!·.directives.isHidden)

/-- The literals of an enumeration in the order of their declaration, if there are any. -/
def enumValues (d : Decl) (type : Option SchemaType) (format : Option String) :
    Option (List Json) × Diagnostics :=
  let values := d.visibleConstants.map (Constant.value d.name type format)
  (if values.isEmpty then none else some (values.map Prod.fst), values.flatMap Prod.snd)

end Decl

end Schemata
