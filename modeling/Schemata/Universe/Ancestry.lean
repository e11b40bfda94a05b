import Schemata.Universe.Basic

/-!
# Ancestry

A declared type leads to the names of its super type and of its interfaces, declared or
not.  The names that can be reached are found by adding the parents of all names found so
far, until nothing is added; every addition but the last needs a further declaration, so
there are no more rounds than declarations.
-/
namespace Schemata

namespace Universe

/-- The names that a declaration extends. -/
def parentNames (u : Universe) (name : String) : List String :=
  match u.get? name with
  | some d => d.parents.filterMap TypeRef.name?
  | none => []

/-- A name is an ancestor of itself and of what leads to it. -/
inductive Reaches (u : Universe) : String → String → Prop where
  | refl (name : String) : Reaches u name name
  | step {a b c : String} : Reaches u a b → c ∈ u.parentNames b → Reaches u a c

theorem Reaches.trans {u : Universe} {a b c : String} (hab : Reaches u a b)
    (hbc : Reaches u b c) : Reaches u a c := by
  induction hbc with
  | refl => exact hab
  | step _ hc ih => exact .step ih hc

/-- The parents of the names that are not among them. -/
def newParents (u : Universe) (names : List String) : List String :=
  ((names.flatMap u.parentNames).filter (!names.contains ·)).eraseDups

def closure (u : Universe) : Nat → List String → List String
  | 0, names => names
  | rounds + 1, names =>
    match u.newParents names with
    | [] => names
    | found => closure u rounds (names ++ found)

/-- All that can be reached from some names. -/
def reachable (u : Universe) (names : List String) : List String :=
  u.closure (u.decls.length + 1) names

/-- Whether one type is another or descends from it. -/
def isAssignable (u : Universe) (source target : String) : Bool :=
  (u.reachable [source]).contains target

def Decl.hasMember (d : Decl) : Bool := d.members.any (!·.isStatic)

/-- Whether the declaration or one of its ancestors has a member that is not static. -/
def hasProperties (u : Universe) (d : Decl) : Bool :=
  Decl.hasMember d ||
    (u.reachable (d.parents.filterMap TypeRef.name?)).any fun name =>
      match u.get? name with
      | some ancestor => Decl.hasMember ancestor
      | none => false

end Universe

end Schemata
