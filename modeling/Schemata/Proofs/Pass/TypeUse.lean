import Schemata.Proofs.Pass.MediaTypes
import Schemata.Proofs.Pass.Nodes
import Schemata.Proofs.Pass.Parts
import Schemata.Proofs.TypeRef.Acceptance

/-!
# Directives of a type use

An argument or an element of an array may say that it admits null.  What is written out for it says
so on its outermost node.  A reference says so in a part beside it, and a value type that the
configuration replaces does not say so at all.
-/
namespace Schemata

open Pass

namespace Universe

/-- What an opened occurrence comes to: a reference to a definition, or a schema without parts.  A
value type admits null if its use does. -/
structure Opens (u : Universe) (t : TypeRef) (s : Schema) : Prop where
  isRef : s.isRef = u.isDefined t
  whole : s.isRef = false → s.allOf = []
  nullable : s.labels.nullable =
    if (u.primitiveOf? t).isSome && t.directives.has .nullable then some true else none

end Universe

namespace Compiler

variable {env : Environment} {depth : Nat} {element : Option Element} {t : TypeRef} {scope : Scope}
  {p q : Pass} {s : Schema}

end Compiler

/-! ### Occurrences without an element -/

namespace Environment

variable (env : Environment) (scope : Scope) (t : TypeRef)

/-- Whether the configuration puts a declared type in the place of the occurrence. -/
def replaces : Bool := ((replacementText? env.config t).bind env.types.declaredType?).isSome

end Environment

namespace Universe

variable {u : Universe} {t : TypeRef}

end Universe

section

variable {env : Environment} {t : TypeRef} {value : Primitive}

end

namespace Compiler

variable {env : Environment} {depth : Nat} {t a : TypeRef} {scope : Scope} {p q : Pass} {s : Schema}

end Compiler

/-! ### Arguments -/

end Schemata
