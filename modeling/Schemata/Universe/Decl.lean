import Schemata.Primitive
import Schemata.TypeRef.Basic
import Schemata.Text.Split

/-!
# Declared types

A declaration names a type and says of what kind it is, which types it extends, and which
members, constants and constructor parameters it has.
-/
namespace Schemata

/-- From the most to the least visible. -/
inductive Visibility where
  | publicAccess | protectedAccess | packageAccess | privateAccess
  deriving DecidableEq, Repr, Inhabited

namespace Visibility

def all : List Visibility := [.publicAccess, .protectedAccess, .packageAccess, .privateAccess]

def name : Visibility → String
  | .publicAccess => "public"
  | .protectedAccess => "protected"
  | .packageAccess => "package"
  | .privateAccess => "private"

def ofName? (name : String) : Option Visibility := all.find? (·.name = name)

def rank : Visibility → Nat
  | .publicAccess => 0
  | .protectedAccess => 1
  | .packageAccess => 2
  | .privateAccess => 3

/-- Whether a member is exposed at this threshold. -/
def allows (threshold member : Visibility) : Bool := member.rank ≤ threshold.rank

@[simp] theorem ofName?_name (v : Visibility) : ofName? v.name = some v := by
  cases v <;> decide

end Visibility

inductive DeclKind where
  | record
  | interface
  | enum
  /-- A collection; its first argument is the element. -/
  | iterable
  /-- A container of entries; its arguments are the key and the value. -/
  | map
  | primitive
  | optional
  | stream
  | single
  deriving DecidableEq, Repr, Inhabited

namespace DeclKind

def all : List DeclKind :=
  [.record, .interface, .enum, .iterable, .map, .primitive, .optional, .stream, .single]

def name : DeclKind → String
  | .record => "record"
  | .interface => "interface"
  | .enum => "enum"
  | .iterable => "iterable"
  | .map => "map"
  | .primitive => "primitive"
  | .optional => "optional"
  | .stream => "stream"
  | .single => "single"

def ofName? (name : String) : Option DeclKind := all.find? (·.name = name)

@[simp] theorem ofName?_name (k : DeclKind) : ofName? k.name = some k := by
  cases k <;> decide

end DeclKind

/-- The containers that are opened before a type is looked at. -/
inductive Wrapper where
  | optional | stream | single
  deriving DecidableEq, Repr

/-- A property with accessors, or a bare field. -/
inductive MemberKind where
  | property | field
  deriving DecidableEq, Repr, Inhabited

namespace MemberKind

def name : MemberKind → String
  | .property => "property"
  | .field => "field"

def ofName? (name : String) : Option MemberKind :=
  [MemberKind.property, .field].find? (·.name = name)

end MemberKind

structure Member where
  name : String
  type : TypeRef
  kind : MemberKind := .property
  visibility : Visibility := .publicAccess
  isStatic : Bool := false
  /-- Nullability that the host language states; false for a type that excludes null. -/
  nullable : Option Bool := none
  directives : Directives := []
  documentation : Option String := none
  deriving Repr, Inhabited

/-- A constant of an enumeration. -/
structure Constant where
  name : String
  directives : Directives := []
  documentation : Option String := none
  deriving Repr, Inhabited

/-- A parameter of the primary constructor. -/
structure ConstructorParam where
  name : String
  nullable : Bool := false
  deriving DecidableEq, Repr, Inhabited

structure Decl where
  /-- The qualified name; a dollar stands before the name of a nested type. -/
  name : String
  kind : DeclKind := .record
  primitive : Option Primitive := none
  params : List TypeParam := []
  superType : Option TypeRef := none
  interfaces : List TypeRef := []
  members : List Member := []
  constants : List Constant := []
  constructor : List ConstructorParam := []
  /-- The type that represents the constants of an enumeration. -/
  enumValueType : Option TypeRef := none
  directives : Directives := []
  documentation : Option String := none
  deriving Repr, Inhabited

/-- The name without its package. -/
def simpleName (qualified : String) : String :=
  String.ofList (Text.afterLast (· = '.') qualified.toList)

/-- The package of a qualified name. -/
def packageOf (qualified : String) : String :=
  String.ofList (Text.beforeLast (· = '.') qualified.toList)

/-- What a parameter stands for when an occurrence gives no argument: its first bound. -/
def TypeParam.fallback (p : TypeParam) : TypeRef := p.bounds.head?.getD .object

namespace Decl

def primitive? (d : Decl) : Option Primitive :=
  match d.kind with
  | .primitive => some (d.primitive.getD .object)
  | _ => none

def wrapper? (d : Decl) : Option Wrapper :=
  match d.kind with
  | .optional => some .optional
  | .stream => some .stream
  | .single => some .single
  | _ => none

/-- Parameters paired with arguments; a missing argument falls back. -/
def bind : List TypeParam → List TypeRef → Bindings
  | [], _ => []
  | p :: ps, [] => (p.name, p.fallback) :: bind ps []
  | p :: ps, arg :: args => (p.name, arg) :: bind ps args

/-- The bindings of an occurrence with these arguments. -/
def bindingsFor (d : Decl) (args : List TypeRef) : Bindings := Assoc.ofList (bind d.params args)

/-- Whether a constructor parameter of this name has to be given. -/
def isMandatory (d : Decl) (name : String) : Bool :=
  d.constructor.any fun p => p.name = name && !p.nullable

/-- The types that the declaration extends, as they are written. -/
def parents (d : Decl) : List TypeRef := d.superType.toList ++ d.interfaces

end Decl

end Schemata
