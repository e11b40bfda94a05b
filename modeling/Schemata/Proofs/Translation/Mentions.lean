import Schemata.Proofs.Translation.Stateless

/-!
# Mentions

An occurrence mentions the declared types that its schema refers to, and a definition those
that its members and ancestors lead to.  The instantiations of some types are what they
mention, directly or through definitions.
-/
namespace Schemata

namespace Translation

variable (T : Translation)

/-- The declared types that an opened occurrence itself refers to. -/
def direct (t : TypeRef) : List TypeRef :=
  match T.env.types.kindOf t with
  | .iterable d => if T.env.types.hasProperties d then [t] else []
  | .map _ => (t.args.head?.filter T.env.types.isEnum).toList
  | .enum _ => [t]
  | .record _ => [t]
  | .interface _ => [t]
  | _ => []

/-- The value of a map with these arguments, if anything is said of it. -/
def mapValue (args : List TypeRef) : List TypeRef :=
  match args with
  | [] => []
  | key :: rest =>
    let value := rest.head?.getD .object
    if T.env.types.isEnum key || !Compiler.admitsAll T.env.types value then [value] else []

/-- The occurrences below an opened one. -/
def inside (t : TypeRef) : List TypeRef :=
  match T.env.types.kindOf t with
  | .array element => if T.env.types.primitiveOf? element = some .byte then [] else [element]
  | .iterable d =>
    if T.env.types.hasProperties d then [] else (T.env.types.bindings t).values.take 1
  | .map _ => T.mapValue t.args
  | _ => []

/-- The declared types that the schema of an occurrence refers to. -/
inductive Mentions (T : Translation) : TypeRef → TypeRef → Prop where
  | here {t m : TypeRef} (h : m ∈ T.direct (T.content t).type) : Mentions T t m
  | inside {t part m : TypeRef} (h : part ∈ T.inside (T.content t).type)
      (inner : Mentions T part m) : Mentions T t m

/-- The types of the properties of a declaration whose parameters stand for some types. -/
def memberTypes (d : Decl) (bindings : Bindings) : List TypeRef :=
  (d.members.filter (·.isVisible T.env d none)).map fun m => m.type.substitute bindings

def ancestors (d : Decl) (bindings : Bindings) : List TypeRef :=
  if (T.env.types.composedParents d).isEmpty then [] else T.env.types.lineage d bindings

/-- The declared types that the schema of a declaration refers to. -/
def DefinitionMentions (d : Decl) (bindings : Bindings) (m : TypeRef) : Prop :=
  d.kind ≠ .enum ∧
    ((∃ type ∈ T.memberTypes d bindings, T.Mentions type m) ∨ m ∈ T.ancestors d bindings)

/-- The declared types that some types lead to. -/
inductive Instantiation (T : Translation) (roots : List TypeRef) : TypeRef → Prop where
  | root {t m : TypeRef} (h : t ∈ roots) (mentioned : T.Mentions t m) : Instantiation T roots m
  | nested {t m : TypeRef} {d : Decl} (outer : Instantiation T roots t)
      (declared : T.env.types.declOf? t = some d)
      (mentioned : T.DefinitionMentions d (T.env.types.bindings t) m) : Instantiation T roots m

end Translation

end Schemata
