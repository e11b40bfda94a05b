import Schemata.Universe.Decl
import Schemata.Directive.Canonical
import Schemata.Text.Fuzzy

/-!
# Universes

A universe holds declarations by name, in the order of their first insertion.  It begins
with the value types and six containers.  A declaration is brought into canonical form when
it is inserted: its directives are normalized and bare mentions of its own parameters
become placeholders.
-/
namespace Schemata

namespace TypeRef

mutual

/-- Normalizes the directives of a type, of its arguments and of array elements. -/
def normalized (n : Normalizer) : TypeRef → TypeRef
  | .named name args directives =>
    .named name (normalizedAll n args) (n.normalizeAll directives)
  | .array element => .array (normalized n element)
  | other => other

def normalizedAll (n : Normalizer) : List TypeRef → List TypeRef
  | [] => []
  | t :: rest => normalized n t :: normalizedAll n rest

end

/-- The form in which a declaration with these parameters holds a type. -/
def canonical (n : Normalizer) (params : List TypeParam) (t : TypeRef) : TypeRef :=
  (t.withPlaceholders params).normalized n

end TypeRef

def Decl.canonical (n : Normalizer) (d : Decl) : Decl :=
  { d with
    directives := n.normalizeAll d.directives
    superType := d.superType.map (TypeRef.canonical n d.params)
    interfaces := d.interfaces.map (TypeRef.canonical n d.params)
    members := d.members.map fun m =>
      { m with
        directives := n.normalizeAll m.directives
        type := m.type.canonical n d.params }
    constants := d.constants.map fun c =>
      { c with directives := n.normalizeAll c.directives } }

/-- What an occurrence is, by its declaration. -/
inductive TypeKind where
  | primitive (p : Primitive)
  | enum (d : Decl)
  | record (d : Decl)
  | interface (d : Decl)
  | iterable (d : Decl)
  | map (d : Decl)
  | wrapper (w : Wrapper) (d : Decl)
  | array (element : TypeRef)
  | placeholder
  | wildcard
  | unknown

/-- The declaration of an occurrence of this kind. -/
def TypeKind.decl? : TypeKind → Option Decl
  | .enum d => some d
  | .record d => some d
  | .interface d => some d
  | .iterable d => some d
  | .map d => some d
  | .wrapper _ d => some d
  | _ => none

structure Universe where
  decls : Assoc String Decl
  normalizer : Normalizer

namespace Universe

/-- The containers that every universe declares. -/
def containers : List Decl :=
  [{ name := "list", kind := .iterable, params := [⟨"E", []⟩] },
    { name := "set", kind := .iterable, params := [⟨"E", []⟩] },
    { name := "map", kind := .map, params := [⟨"K", []⟩, ⟨"V", []⟩] },
    { name := "optional", kind := .optional, params := [⟨"T", []⟩] },
    { name := "stream", kind := .stream, params := [⟨"T", []⟩] },
    { name := "future", kind := .single, params := [⟨"T", []⟩] }]

def builtIns : List Decl :=
  Primitive.all.map (fun p => { name := p.name, kind := .primitive, primitive := some p })
    ++ containers

/-- The universe of the built-in types. -/
def initial (n : Normalizer) : Universe := ⟨builtIns.map fun d => (d.name, d), n⟩

def insert (u : Universe) (d : Decl) : Universe :=
  { u with decls := u.decls.insert d.name (d.canonical u.normalizer) }

def insertAll (u : Universe) (ds : List Decl) : Universe := ds.foldl insert u

def get? (u : Universe) (name : String) : Option Decl := u.decls.get? name

def contains (u : Universe) (name : String) : Bool := u.decls.contains name

def size (u : Universe) : Nat := u.decls.length

/-- The declarations after the places of the built-in ones. -/
def declared (u : Universe) : List Decl := (u.decls.drop builtIns.length).map Prod.snd

/-- The declaration of a named occurrence. -/
def declOf? (u : Universe) (t : TypeRef) : Option Decl := t.name?.bind u.get?

def kindOfDecl (d : Decl) : TypeKind :=
  match d.kind with
  | .primitive => .primitive (d.primitive.getD .object)
  | .enum => .enum d
  | .record => .record d
  | .interface => .interface d
  | .iterable => .iterable d
  | .map => .map d
  | .optional => .wrapper .optional d
  | .stream => .wrapper .stream d
  | .single => .wrapper .single d

def kindOf (u : Universe) : TypeRef → TypeKind
  | .array element => .array element
  | .placeholder _ _ => .placeholder
  | .wildcard _ => .wildcard
  | .named name _ _ =>
    match u.get? name with
    | none => .unknown
    | some d => kindOfDecl d

theorem declOf?_of_kindOf {u : Universe} {t : TypeRef} {d : Decl}
    (h : (u.kindOf t).decl? = some d) : u.declOf? t = some d := by
  cases t with
  | named name args directives =>
    change u.get? name = some d
    simp only [kindOf] at h
    cases hget : u.get? name with
    | none =>
      rw [hget] at h
      cases h
    | some found =>
      have same : found = d := by
        simp only [hget, kindOfDecl] at h
        cases hkind : found.kind <;> simp_all [TypeKind.decl?]
      rw [same]
  | array element => cases h
  | placeholder name bounds => cases h
  | wildcard bounds => cases h

def primitiveOf? (u : Universe) (t : TypeRef) : Option Primitive :=
  match u.kindOf t with
  | .primitive p => some p
  | _ => none

def isEnum (u : Universe) (t : TypeRef) : Bool :=
  match u.kindOf t with
  | .enum _ => true
  | _ => false

/-- Iterables, maps and arrays. -/
def isContainer (u : Universe) (t : TypeRef) : Bool :=
  match u.kindOf t with
  | .iterable _ => true
  | .map _ => true
  | .array _ => true
  | _ => false

def wrapperOf? (u : Universe) (t : TypeRef) : Option Wrapper :=
  match u.kindOf t with
  | .wrapper w _ => some w
  | _ => none

/-- What the parameters of the declaration stand for in an occurrence. -/
def bindings (u : Universe) (t : TypeRef) : Bindings :=
  match u.declOf? t with
  | some d => d.bindingsFor t.args
  | none => []

/-- The declared name that looks most like the simple name of a missing type. -/
def suggest (u : Universe) (name : String) : Option String :=
  Fuzzy.bestMatch? (u.declared.map Decl.name) (simpleName name)

end Universe

end Schemata
