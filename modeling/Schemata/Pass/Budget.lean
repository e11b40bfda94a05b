import Schemata.Pass.Basic
import Schemata.Pass.Element
import Schemata.Sum

/-!
# How deep a request may go

Between two definitions that are in progress the types only get smaller, and there are no
more names than ways to combine what is written in the universe.  The measure counts every
character and every node that a request can come to see, so that its fourth power is beyond
the depth of every request that ends, unless generic types pile up without bound.
-/
namespace Schemata

namespace Budget

mutual

def json : Json → Nat
  | .str text => text.length + 1
  | .arr items => jsonItems items + 1
  | .obj members => jsonMembers members + 1
  | _ => 1

def jsonItems : List Json → Nat
  | [] => 0
  | value :: rest => json value + jsonItems rest

def jsonMembers : List (String × Json) → Nat
  | [] => 0
  | (key, value) :: rest => key.length + json value + 1 + jsonMembers rest

end

def directives (ds : Directives) : Nat := sumOf (fun e => jsonMembers e.2 + 1) ds

mutual

def type : TypeRef → Nat
  | .named name args ds => name.length + types args + directives ds + 1
  | .array element => type element + 1
  | .placeholder name bounds => name.length + types bounds + 1
  | .wildcard bounds => types bounds + 1

def types : List TypeRef → Nat
  | [] => 0
  | t :: rest => type t + types rest

end

def member (m : Member) : Nat := m.name.length + type m.type + directives m.directives + 1

def param (p : TypeParam) : Nat := p.name.length + types p.bounds + 1

/-- The size of what a declaration can lead to. -/
def decl (d : Decl) : Nat :=
  d.name.length + sumOf param d.params + types d.parents + sumOf member d.members
    + directives d.directives + 1

def declarations (u : Universe) : Nat := sumOf (fun e => decl e.2) u.decls

/-- The size of the types that a configuration brings in. -/
def config (c : Config) : Nat :=
  sumOf (fun s => s.type.length + s.replacement.length + 1) c.customSchemas

/-- The depth that a request may take. -/
def depth (env : Environment) (element : Option Element) (t : TypeRef) : Nat :=
  let size := declarations env.types + config env.config + type t
    + (element.map fun e => directives e.directives).getD 0
  Nat.pow (size + 4) 4

end Budget

end Schemata
