import Schemata.DocText
import Schemata.Universe.Decl

/-!
# Elements

The element that an occurrence of a type belongs to: a member of a declared type, or a
parameter or body outside of all declarations.
-/
namespace Schemata

structure Element where
  name : String
  directives : Directives := []
  documentation : Option String := none
  /-- The declaration of which the element is a member. -/
  owner : Option Decl := none

namespace Element

def ofMember (d : Decl) (m : Member) : Element :=
  ⟨m.name, m.directives, m.documentation, some d⟩

def isMember (e : Element) : Bool := e.owner.isSome

def directive? (e : Element) (kind : DirectiveKind) : Option Directive := e.directives.get? kind

def has (e : Element) (kind : DirectiveKind) : Bool := e.directives.has kind

/-- How diagnostics call the element. -/
def subject (e : Element) : String :=
  match e.owner with
  | some d => d.name ++ "." ++ e.name
  | none => e.name

/-- The description of a text. -/
def descriptionOf (documentation : Option String) : Option String :=
  documentation.bind fun text => (DocText.parse text).description

/-- The description of the element, or what its owner says of it. -/
def description? (e : Element) : Option String :=
  (descriptionOf e.documentation).or
    ((e.owner.bind Decl.documentation).bind fun text => (DocText.parse text).param? e.name)

end Element

/-- How diagnostics call an occurrence. -/
def subjectOf (element : Option Element) (t : TypeRef) : String :=
  match element with
  | some e => e.subject
  | none => t.display

end Schemata
