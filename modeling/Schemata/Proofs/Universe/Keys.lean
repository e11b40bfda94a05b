import Schemata.Universe.Lineage
import Schemata.Universe.Representation
import Schemata.Proofs.Universe.Concrete

/-!
# Declarations and their names

A declaration is inserted under its own name.  A type that has parents to be composed with is
composed with one of them, unless its only parent is itself; then it is a record or an interface.
-/
namespace Schemata

namespace Universe

/-- Every declaration stands under its own name. -/
def Keyed (u : Universe) : Prop := ∀ name d, u.get? name = some d → d.name = name

theorem keyed_initial (n : Normalizer) : (initial n).Keyed := by
  intro name d hget
  obtain ⟨builtIn, -, same⟩ := List.mem_map.mp (Assoc.mem_of_get? hget)
  cases same
  rfl

theorem Keyed.insert {u : Universe} (h : u.Keyed) (d : Decl) : (u.insert d).Keyed := by
  intro name found hget
  rw [get?_insert] at hget
  split at hget
  · rename_i same
    cases hget
    exact same
  · exact h name found hget

theorem keyed_insertAll (n : Normalizer) (ds : List Decl) : ((initial n).insertAll ds).Keyed := by
  have loop {u : Universe} (h : u.Keyed) : (u.insertAll ds).Keyed := by
    induction ds generalizing u with
    | nil => exact h
    | cons d ds ih => exact ih (h.insert d)
  exact loop (keyed_initial n)

variable {u : Universe} {d : Decl} {t : TypeRef}

theorem kindOf_of_declOf? (h : u.declOf? t = some d) : u.kindOf t = kindOfDecl d := by
  obtain ⟨name, hname, hget⟩ := Option.bind_eq_some_iff.mp h
  cases t with
  | named other args directives =>
    cases hname
    simp only [kindOf, hget]
  | array element => cases hname
  | placeholder name bounds => cases hname
  | wildcard bounds => cases hname

/-- A type that can be composed with is declared, whatever its arguments are. -/
theorem declared_of_isComposable (h : u.isComposable t = true) (bindings : Bindings) :
    ∃ d, u.declOf? t = some d ∧ u.declOf? (t.substitute bindings) = some d := by
  cases t with
  | named name args directives =>
    unfold isComposable at h
    cases hget : u.get? name with
    | none => simp [kindOf, hget] at h
    | some d => exact ⟨d, hget, hget⟩
  | array element => cases h
  | placeholder name bounds => cases h
  | wildcard bounds => cases h

/-- A type without ancestors has no parents, or is a parent of itself. -/
theorem exists_own_parent {bindings : Bindings} (none : u.lineage d bindings = [])
    (parents : u.composedParents d ≠ []) :
    ∃ parent own, u.isComposable parent = true ∧ u.declOf? parent = some own ∧
      own.name = d.name := by
  cases hparents : u.composedParents d with
  | nil => exact absurd hparents parents
  | cons parent rest =>
    have composable := (mem_composedParents (hparents ▸ List.mem_cons_self)).2
    obtain ⟨own, declared, substituted⟩ := declared_of_isComposable composable bindings
    obtain ⟨steps, hsteps⟩ : ∃ steps, u.lineageSteps d = steps + 1 := by
      rw [lineageSteps, hparents, List.length_cons]
      exact ⟨_, Nat.add_right_comm _ _ _⟩
    rw [lineage, hsteps, hparents, List.map_cons, lineageFrom] at none
    simp only [substituted] at none
    split at none
    · rename_i seen
      exact ⟨parent, own, composable, declared, by simpa using seen⟩
    · cases none

/-- Then the type is represented as an object. -/
theorem Keyed.representation_of_lineage_eq_nil (h : u.Keyed) (declared : u.declOf? t = some d)
    {bindings : Bindings} (none : u.lineage d bindings = [])
    (parents : u.composedParents d ≠ []) : u.representation t = (.object, Option.none) := by
  obtain ⟨parent, own, composable, found, same⟩ := exists_own_parent none parents
  obtain ⟨name, -, hget⟩ := Option.bind_eq_some_iff.mp declared
  obtain ⟨other, -, hget'⟩ := Option.bind_eq_some_iff.mp found
  have key : other = name := by rw [← h _ _ hget', same, h _ _ hget]
  have own : own = d := by
    rw [key, hget] at hget'
    exact (Option.some.inj hget').symm
  have kind : u.kindOf t = u.kindOf parent := by
    rw [kindOf_of_declOf? declared, kindOf_of_declOf? found, own]
  unfold isComposable at composable
  unfold representation plainRepresentation
  rw [kind]
  split at composable
  · rename_i hkind
    rw [hkind]
  · rename_i hkind
    rw [hkind]
  · cases composable

end Universe

end Schemata
