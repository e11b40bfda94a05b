import Schemata.Proofs.Assoc
import Schemata.Universe.Ancestry

/-!
# Universes of concrete types

Where no declaration has parameters of its own, only the containers are generic.  Their
parameters have no bounds, and they have no members, so that they are never defined.
-/
namespace Schemata

namespace Universe

/-- Whatever can be defined has no parameters, and no parameter has bounds. -/
structure Concrete (u : Universe) : Prop where
  value (p : Primitive) : ∃ d, u.get? p.name = some d ∧ d.kind = .primitive ∧ d.params = []
  unbounded {name : String} {d : Decl} : u.get? name = some d → ∀ p ∈ d.params, p.bounds = []
  defined {name : String} {d : Decl} : u.get? name = some d →
    d.kind = .record ∨ d.kind = .interface ∨ d.kind = .enum ∨ u.hasProperties d = true →
      d.params = []

/-- None of these declarations has parameters or takes the place of a built-in type. -/
def OnlyConcrete (ds : List Decl) : Prop :=
  ∀ d ∈ ds, d.params = [] ∧ d.name ∉ builtIns.map Decl.name

theorem get?_insert (u : Universe) (d : Decl) (name : String) :
    (u.insert d).get? name =
      if d.name = name then some (d.canonical u.normalizer) else u.get? name :=
  Assoc.get?_insert u.decls d.name name _

theorem get?_insertAll_of_forall_ne {u : Universe} {ds : List Decl} {name : String}
    (h : ∀ d ∈ ds, d.name ≠ name) : (u.insertAll ds).get? name = u.get? name := by
  induction ds generalizing u with
  | nil => rfl
  | cons d ds ih =>
    change ((u.insert d).insertAll ds).get? name = u.get? name
    rw [ih fun other hother => h other (List.mem_cons_of_mem _ hother), get?_insert,
      if_neg (h d List.mem_cons_self)]

/-- A declaration was inserted, or was there from the beginning. -/
theorem of_get?_insertAll {u : Universe} {ds : List Decl} {name : String} {d : Decl}
    (h : (u.insertAll ds).get? name = some d) :
    u.get? name = some d ∨ ∃ inserted ∈ ds, ∃ n, d = inserted.canonical n := by
  induction ds generalizing u with
  | nil => exact .inl h
  | cons first ds ih =>
    rcases ih (u := u.insert first) h with before | ⟨inserted, hmem, n, same⟩
    · rw [get?_insert] at before
      split at before
      · exact .inr ⟨first, List.mem_cons_self, _, (Option.some.inj before).symm⟩
      · exact .inl before
    · exact .inr ⟨inserted, List.mem_cons_of_mem _ hmem, n, same⟩

/-- A built-in type is neither composed nor an enumeration, and has nothing of its own. -/
def Decl.isBare (d : Decl) : Bool :=
  d.members.isEmpty && d.parents.isEmpty && d.params.all (·.bounds.isEmpty)
    && d.kind != .record && d.kind != .interface && d.kind != .enum

theorem isBare_of_mem_builtIns : ∀ d ∈ builtIns, Decl.isBare d = true := by
  decide

theorem isBare_of_get?_initial {n : Normalizer} {name : String} {d : Decl}
    (h : (initial n).get? name = some d) : Decl.isBare d = true := by
  obtain ⟨builtIn, hmem, same⟩ := List.mem_map.mp (Assoc.mem_of_get? h)
  cases same
  exact isBare_of_mem_builtIns d hmem

theorem hasProperties_of_isBare {d : Decl} (u : Universe) (h : Decl.isBare d = true) :
    u.hasProperties d = false := by
  simp only [Decl.isBare, Bool.and_eq_true, List.isEmpty_iff] at h
  obtain ⟨⟨⟨⟨⟨members, parents⟩, -⟩, -⟩, -⟩, -⟩ := h
  have nothing : u.reachable [] = [] := by
    rw [reachable, closure]
    rfl
  simp [hasProperties, Decl.hasMember, members, parents, nothing]

/-- The declarations of a universe decide which of its types are generic. -/
theorem concrete_insertAll (n : Normalizer) {ds : List Decl} (h : OnlyConcrete ds) :
    ((initial n).insertAll ds).Concrete where
  value p := by
    refine ⟨{ name := p.name, kind := .primitive, primitive := some p }, ?_, rfl, rfl⟩
    rw [get?_insertAll_of_forall_ne fun d hd same => (h d hd).2 ?_]
    · cases p <;> rfl
    · rw [same]
      cases p <;> decide
  unbounded hget p hp := by
    rcases of_get?_insertAll hget with builtIn | ⟨inserted, hmem, n, rfl⟩
    · have bare := isBare_of_get?_initial builtIn
      simp only [Decl.isBare, Bool.and_eq_true, List.all_eq_true] at bare
      exact List.isEmpty_iff.mp (bare.1.1.1.2 p hp)
    · have params : (inserted.canonical n).params = [] := (h inserted hmem).1
      rw [params] at hp
      cases hp
  defined hget kind := by
    rcases of_get?_insertAll hget with builtIn | ⟨inserted, hmem, n, rfl⟩
    · have bare := isBare_of_get?_initial builtIn
      have none := hasProperties_of_isBare ((initial n).insertAll ds) bare
      simp only [Decl.isBare, Bool.and_eq_true, bne_iff_ne] at bare
      simp [bare, none] at kind
    · exact (h inserted hmem).1

end Universe

end Schemata
