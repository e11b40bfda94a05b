import Schemata.Pass.Opening
import Schemata.Universe.Representation

/-!
# Literals of an element

Defaults, examples and listed values that are written as text are read against the type of
the schema that they end up in.  A text that does not fit is reported and kept.
-/
namespace Schemata

/-- A type and a format to read literals against. -/
structure LiteralType where
  type : Option SchemaType
  format : Option String
  deriving DecidableEq, Repr

/-- What a schema says about its literals; a reference is followed. -/
def Registry.literalType? (r : Registry) (s : Schema) : Option LiteralType :=
  let target := if s.isRef then r.resolve? s else some s
  target.bind fun s => s.type.map fun type => ⟨some type, s.facets.format⟩

/-- The first of some schemas that has a type decides, or else the occurrence itself. -/
def literalType (u : Universe) (r : Registry) (candidates : List Schema) (t : TypeRef) :
    LiteralType :=
  match candidates.findSome? r.literalType? with
  | some found => found
  | none =>
    let (type, format) := u.representation (t.unwrapped u)
    ⟨some type, format⟩

namespace LiteralType

/-- The value that a text turned into; a text that does not fit stands for itself. -/
def settled (subject raw : String) (read : Except CoerceError (Option Json)) :
    Option Json × Diagnostics :=
  match read with
  | .ok value => (value, [])
  | .error e => (some (.str raw), [.coercionFailed subject raw e.message])

/-- Texts are read, other values stand for themselves. -/
def literal (l : LiteralType) (subject : String) : Json → Option Json × Diagnostics
  | .str raw => settled subject raw (coerce raw l.type l.format)
  | value => (some value, [])

/-- The values of a list, if there are any. -/
def literals (l : LiteralType) (subject : String) (items : List Json) :
    Option (List Json) × Diagnostics :=
  let read := items.map (l.literal subject)
  let values := read.filterMap Prod.fst
  (if values.isEmpty then none else some values, read.flatMap Prod.snd)

end LiteralType

namespace Element

/-- The default that a directive gives; only some defaults may be lists in plain text. -/
def defaultFrom (e : Element) (l : LiteralType) (kind : DirectiveKind) (many : Bool) :
    Option Json × Diagnostics :=
  match (e.directive? kind).bind (Assoc.get? · "default") with
  | none => (none, [])
  | some (.str raw) =>
    LiteralType.settled e.subject raw
      (if many then coerceMany raw l.type l.format else coerce raw l.type l.format)
  | some value => (some value, [])

/-- The default of the element: what was found before, then what its binding to a
configuration says, then what its serialization says. -/
def default? (e : Element) (l : LiteralType) (found : Option Json) : Option Json × Diagnostics :=
  match found with
  | some value => (some value, [])
  | none =>
    let (bound, first) := e.defaultFrom l .bindable true
    match bound with
    | some value => (some value, first)
    | none =>
      let (named, second) := e.defaultFrom l .jsonProperty false
      (named, first ++ second)

end Element

end Schemata
