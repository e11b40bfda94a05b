import Schemata.Proofs.Assoc
import Schemata.Universe.Lineage

/-!
# Walks through the ancestors

The ancestors of a type are found in a number of steps that is known beforehand.  Further steps
find nothing else: no declaration is entered twice, and every step but the last round takes a
parent away or meets a declaration that was not met before.
-/
namespace Schemata

namespace Universe

variable {u : Universe}

/-! ### Depth first -/

/-- The parents of all declarations that were not seen. -/
def unseenParents (u : Universe) (seen : List String) : Nat :=
  sumOf (fun entry => if entry.2.name ∈ seen then 0 else (u.composedParents entry.2).length) u.decls

theorem unseenParents_cons {t : TypeRef} {d : Decl} {seen : List String}
    (declared : u.declOf? t = some d) (unseen : d.name ∉ seen) :
    u.unseenParents (d.name :: seen) + (u.composedParents d).length ≤ u.unseenParents seen := by
  obtain ⟨name, -, hget⟩ := Option.bind_eq_some_iff.mp declared
  refine sumOf_add_le_sumOf (fun entry _ => ?_) (Assoc.mem_of_get? hget) ?_
  · by_cases same : entry.2.name ∈ seen
    · simp [same]
    · simp only [List.mem_cons, same, if_false]
      split
      · exact Nat.zero_le _
      · exact Nat.le_refl _
  · simp [unseen]

/-- With as many steps as parents may come up, no ancestor is missed. -/
theorem lineageFrom_add {steps : Nat} {seen : List String} {pending : List TypeRef}
    (enough : pending.length + u.unseenParents seen ≤ steps) (more : Nat) :
    u.lineageFrom (steps + more) seen pending = u.lineageFrom steps seen pending := by
  induction steps generalizing seen pending with
  | zero =>
    have empty : pending = [] := List.length_eq_zero_iff.mp (by omega)
    subst empty
    cases more <;> rfl
  | succ steps ih =>
    rw [Nat.add_right_comm]
    cases pending with
    | nil => rfl
    | cons t pending =>
      rw [List.length_cons] at enough
      simp only [lineageFrom]
      split
      · exact ih (by omega)
      · rename_i d declared
        split
        · exact ih (by omega)
        · rename_i unseen
          have fewer := unseenParents_cons declared (by simpa using unseen)
          rw [ih (by rw [List.length_append, List.length_map]; omega)]

theorem parents_le_lineageSteps (u : Universe) (d : Decl) :
    (u.composedParents d).length + u.unseenParents [d.name] ≤ u.lineageSteps d := by
  rw [lineageSteps]
  refine Nat.add_le_add_left (sumOf_le_sumOf fun entry _ => ?_) _
  split
  · exact Nat.zero_le _
  · exact Nat.le_refl _

theorem lineageFrom_lineageSteps (u : Universe) (d : Decl) (bindings : Bindings) (more : Nat) :
    u.lineageFrom (u.lineageSteps d + more) [d.name]
      ((u.composedParents d).map (TypeRef.substitute bindings)) = u.lineage d bindings := by
  refine lineageFrom_add ?_ more
  rw [List.length_map]
  exact u.parents_le_lineageSteps d

/-! ### Round by round -/

/-- A round only adds something if a name of the last round was declared. -/
theorem exists_declared_of_newParents {old fresh : List String}
    (known : ∀ name ∈ old, u.parentNames name ⊆ old ++ fresh)
    (h : u.newParents (old ++ fresh) ≠ []) :
    ∃ name ∈ fresh, ∃ d, (name, d) ∈ u.decls := by
  obtain ⟨parent, hparent⟩ := List.exists_mem_of_ne_nil _ h
  obtain ⟨found, new⟩ := List.mem_filter.mp (List.mem_eraseDups.mp hparent)
  obtain ⟨name, hname, hchild⟩ := List.mem_flatMap.mp found
  rcases List.mem_append.mp hname with before | last
  · have old := known name before hchild
    simp [old] at new
  · refine ⟨name, last, ?_⟩
    unfold parentNames at hchild
    split at hchild
    · rename_i d hget
      exact ⟨d, Assoc.mem_of_get? hget⟩
    · cases hchild

theorem parentNames_subset_newParents {names : List String} {name : String} (h : name ∈ names) :
    u.parentNames name ⊆ names ++ u.newParents names := by
  intro parent hparent
  by_cases old : parent ∈ names
  · exact List.mem_append_left _ old
  · refine List.mem_append_right _ (List.mem_eraseDups.mpr (List.mem_filter.mpr ⟨?_, by simpa⟩))
    exact List.mem_flatMap.mpr ⟨name, h, hparent⟩

theorem not_mem_of_mem_newParents {names : List String} {name : String}
    (h : name ∈ u.newParents names) : name ∉ names := by
  simpa using (List.mem_filter.mp (List.mem_eraseDups.mp h)).2

/-- A round that adds something has met a declaration for the first time. -/
theorem unseen_lt_of_newParents {old fresh : List String}
    (known : ∀ name ∈ old, u.parentNames name ⊆ old ++ fresh)
    (apart : ∀ name ∈ fresh, name ∉ old) (h : u.newParents (old ++ fresh) ≠ []) :
    u.decls.unseen (old ++ fresh) < u.decls.unseen old := by
  obtain ⟨name, hname, d, declared⟩ := exists_declared_of_newParents known h
  exact Assoc.unseen_lt declared (List.subset_append_left old fresh) (apart name hname)
    (List.mem_append_right old hname)

/-- There are no more rounds that add something than there are declarations. -/
theorem closure_add {rounds : Nat} {old fresh : List String}
    (known : ∀ name ∈ old, u.parentNames name ⊆ old ++ fresh)
    (apart : ∀ name ∈ fresh, name ∉ old) (enough : u.decls.unseen old ≤ rounds) (more : Nat) :
    u.closure (rounds + more) (old ++ fresh) = u.closure rounds (old ++ fresh) := by
  induction rounds generalizing old fresh with
  | zero =>
    cases more with
    | zero => rfl
    | succ more =>
      rw [Nat.zero_add]
      simp only [closure]
      split
      · rfl
      · rename_i found
        have fewer := unseen_lt_of_newParents known apart found
        omega
  | succ rounds ih =>
    rw [Nat.add_right_comm]
    simp only [closure]
    split
    · rfl
    · rename_i found
      have fewer := unseen_lt_of_newParents known apart found
      exact ih (fun name => parentNames_subset_newParents)
        (fun name => not_mem_of_mem_newParents) (by omega)

theorem closure_reachable (u : Universe) (names : List String) (more : Nat) :
    u.closure (u.decls.length + 1 + more) names = u.reachable names := by
  have start (name : String) (h : name ∈ ([] : List String)) :
      u.parentNames name ⊆ [] ++ names := by cases h
  exact closure_add start (fun name _ h => by cases h)
    (Nat.le_succ_of_le (Assoc.unseen_le_length u.decls [])) more

end Universe

end Schemata
