import Schemata.Universe.Ancestry

/-!
# Lineage

The ancestors that take part in the definition of a type: of an interface every parent
interface that has members, of any other type its super type.  They are found depth first,
each with the arguments that the chain of descent gives it, and each declaration once.
-/
namespace Schemata

namespace Universe

/-- Records and interfaces can be composed. -/
def isComposable (u : Universe) (t : TypeRef) : Bool :=
  match u.kindOf t with
  | .record _ => true
  | .interface _ => true
  | _ => false

/-- Whether a declared type has a member, also by descent. -/
def refHasProperties (u : Universe) (t : TypeRef) : Bool :=
  (u.declOf? t).any u.hasProperties

/-- The parents that take part in the definition of a type. -/
def composedParents (u : Universe) (d : Decl) : List TypeRef :=
  match d.kind with
  | .interface => (d.interfaces.filter u.isComposable).filter u.refHasProperties
  | _ => d.superType.toList.filter u.isComposable

theorem mem_composedParents {u : Universe} {d : Decl} {t : TypeRef} (h : t ∈ u.composedParents d) :
    t ∈ d.parents ∧ u.isComposable t = true := by
  unfold composedParents at h
  rw [Decl.parents, List.mem_append]
  split at h
  · obtain ⟨inner, -⟩ := List.mem_filter.mp h
    obtain ⟨mem, composable⟩ := List.mem_filter.mp inner
    exact ⟨.inr mem, composable⟩
  · obtain ⟨mem, composable⟩ := List.mem_filter.mp h
    exact ⟨.inl mem, composable⟩

/-- The pending ancestors and theirs in depth-first order, without the declarations that were
seen.  Each step takes one of them away. -/
def lineageFrom (u : Universe) : Nat → List String → List TypeRef → List TypeRef
  | 0, _, _ => []
  | _ + 1, _, [] => []
  | steps + 1, seen, t :: pending =>
    match u.declOf? t with
    | none => u.lineageFrom steps seen pending
    | some d =>
      if seen.contains d.name then u.lineageFrom steps seen pending
      else
        let parents := (u.composedParents d).map (TypeRef.substitute (u.bindings t))
        t :: u.lineageFrom steps (d.name :: seen) (parents ++ pending)

/-- What holds of the pending ancestors and passes from a declared type to the parents it is
composed of holds of everything that is found, and only declared types are found. -/
theorem holds_lineageFrom {u : Universe} {P : TypeRef → Prop}
    (climb : ∀ {t d}, P t → u.declOf? t = some d →
      ∀ parent ∈ (u.composedParents d).map (TypeRef.substitute (u.bindings t)), P parent)
    {steps : Nat} {seen : List String} {pending : List TypeRef} (h : ∀ t ∈ pending, P t) :
    ∀ t ∈ u.lineageFrom steps seen pending, P t ∧ ∃ d, u.declOf? t = some d := by
  induction steps generalizing seen pending with
  | zero => exact fun t ht => by cases ht
  | succ steps ih =>
    cases pending with
    | nil => exact fun t ht => by cases ht
    | cons first pending =>
      obtain ⟨held, rest⟩ := List.forall_mem_cons.mp h
      rw [lineageFrom]
      split
      · exact ih rest
      · rename_i d declared
        split
        · exact ih rest
        · have parents := climb held declared
          exact List.forall_mem_cons.mpr
            ⟨⟨held, d, declared⟩, ih (List.forall_mem_append.mpr ⟨parents, rest⟩)⟩

theorem declOf?_of_mem_lineageFrom {u : Universe} {steps : Nat} {seen : List String}
    {pending : List TypeRef} {t : TypeRef} (h : t ∈ u.lineageFrom steps seen pending) :
    ∃ d, u.declOf? t = some d :=
  (holds_lineageFrom (P := fun _ => True) (fun _ _ _ _ => trivial) (fun _ _ => trivial) t h).2

/-- Every declaration brings in its parents once, so this many steps are enough. -/
def lineageSteps (u : Universe) (d : Decl) : Nat :=
  (u.composedParents d).length
    + sumOf (fun entry => (u.composedParents entry.2).length) u.decls

/-- The ancestors of a declaration under some bindings. -/
def lineage (u : Universe) (d : Decl) (bindings : Bindings) : List TypeRef :=
  u.lineageFrom (u.lineageSteps d) [d.name]
    ((u.composedParents d).map (TypeRef.substitute bindings))

end Universe

end Schemata
