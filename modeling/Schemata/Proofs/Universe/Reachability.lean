import Schemata.Proofs.Universe.Walks

/-!
# What can be reached

Adding parents round by round finds the names that some names lead to, and no others: whatever is
added is a parent of a name that was found before, and after the last round all parents are among
the names.  So a type is assignable to the names that it reaches, however the hierarchy loops and
whether they are declared or not.
-/
namespace Schemata

namespace Universe

variable {u : Universe} {names : List String} {name : String}

/-- Names are closed if there is no parent to be added. -/
theorem parentNames_subset_of_closed (closed : u.newParents names = []) (h : name ∈ names) :
    u.parentNames name ⊆ names := by
  have parents := parentNames_subset_newParents (u := u) h
  rwa [closed, List.append_nil] at parents

theorem closure_of_closed (closed : u.newParents names = []) (rounds : Nat) :
    u.closure rounds names = names := by
  cases rounds with
  | zero => rfl
  | succ rounds => rw [closure, closed]

/-- Rounds after other rounds go on from what these found. -/
theorem closure_closure (rounds more : Nat) :
    u.closure (rounds + more) names = u.closure more (u.closure rounds names) := by
  induction rounds generalizing names with
  | zero => rw [Nat.zero_add, closure]
  | succ rounds ih =>
    rw [Nat.add_right_comm]
    cases found : u.newParents names with
    | nil => rw [closure_of_closed found, closure_of_closed found, closure_of_closed found]
    | cons parent others =>
      simp only [closure, found]
      exact ih

theorem subset_closure (rounds : Nat) : names ⊆ u.closure rounds names := by
  induction rounds generalizing names with
  | zero => exact List.Subset.refl _
  | succ rounds ih =>
    rw [closure]
    split
    · exact List.Subset.refl _
    · exact List.Subset.trans (List.subset_append_left _ _) ih

/-- Every name that is found is led to by one of the first. -/
theorem reaches_of_mem_closure {rounds : Nat} (h : name ∈ u.closure rounds names) :
    ∃ start ∈ names, u.Reaches start name := by
  induction rounds generalizing names with
  | zero => exact ⟨name, h, .refl name⟩
  | succ rounds ih =>
    rw [closure] at h
    split at h
    · exact ⟨name, h, .refl name⟩
    · rename_i found
      obtain ⟨start, hstart, reaches⟩ := ih h
      rcases List.mem_append.mp hstart with old | new
      · exact ⟨start, old, reaches⟩
      · obtain ⟨parent, -⟩ := List.mem_filter.mp (List.mem_eraseDups.mp new)
        obtain ⟨child, hchild, leads⟩ := List.mem_flatMap.mp parent
        exact ⟨child, hchild, (Reaches.step (.refl child) leads).trans reaches⟩

/-- After the last round no parent is left to be added. -/
theorem newParents_reachable (u : Universe) (names : List String) :
    u.newParents (u.reachable names) = [] := by
  have once : u.closure 1 (u.reachable names) = u.reachable names := by
    have further := u.closure_reachable names 1
    rwa [closure_closure] at further
  cases found : u.newParents (u.reachable names) with
  | nil => rfl
  | cons parent others =>
    simp only [closure, found] at once
    exact absurd (List.append_right_eq_self.mp once) (List.cons_ne_nil _ _)

theorem mem_reachable_of_reaches {start : String} (h : u.Reaches start name)
    (mem : start ∈ u.reachable names) : name ∈ u.reachable names := by
  induction h with
  | refl => exact mem
  | step _ leads ih => exact parentNames_subset_of_closed (u.newParents_reachable names) ih leads

/-- What can be reached from some names is what one of them leads to. -/
theorem mem_reachable_iff :
    name ∈ u.reachable names ↔ ∃ start ∈ names, u.Reaches start name :=
  ⟨reaches_of_mem_closure, fun ⟨_, hstart, reaches⟩ =>
    mem_reachable_of_reaches reaches (subset_closure _ hstart)⟩

/-- A type is assignable to a name if and only if it leads there. -/
theorem isAssignable_iff {source target : String} :
    u.isAssignable source target = true ↔ u.Reaches source target := by
  rw [isAssignable, List.contains_iff_mem, mem_reachable_iff]
  simp

theorem isAssignable_refl (u : Universe) (name : String) : u.isAssignable name name = true :=
  isAssignable_iff.mpr (.refl name)

theorem isAssignable_trans {a b c : String} (hab : u.isAssignable a b = true)
    (hbc : u.isAssignable b c = true) : u.isAssignable a c = true :=
  isAssignable_iff.mpr ((isAssignable_iff.mp hab).trans (isAssignable_iff.mp hbc))

end Universe

end Schemata
