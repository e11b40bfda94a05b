import Mathlib.Data.List.Nodup
import Mathlib.Data.List.Sort
import Schemata.CommandLine.Run
import Schemata.Proofs.Assoc
import Schemata.Proofs.Universe.Reordering

/-!
# The order of declarations

Declarations of distinct names are found under these names in whatever order they were inserted,
and the roots of the command line are sorted.
-/
namespace Schemata

/-- Sorted names stand in one order only. -/
theorem mergeSort_of_perm {names names' : List String} (perm : names.Perm names') :
    (names'.mergeSort fun a b => !decide (b < a)) = names.mergeSort fun a b => !decide (b < a) := by
  have ordered (a b : String) : (!decide (b < a)) = true ↔ a ≤ b := by
    rw [Bool.not_eq_true', decide_eq_false_iff_not, String.not_lt]
  have sorted (names : List String) :
      (names.mergeSort fun a b => !decide (b < a)).Pairwise fun a b => a ≤ b := by
    refine (List.pairwise_mergeSort ?trans ?total names).imp fun {a b} => (ordered a b).mp
    case trans =>
      intro a b c hab hbc
      rw [ordered] at hab hbc ⊢
      exact String.le_trans hab hbc
    case total =>
      intro a b
      rw [Bool.or_eq_true, ordered, ordered]
      exact String.le_total a b
  refine List.Perm.eq_of_pairwise (fun a b _ _ => String.le_antisymm) (sorted names')
    (sorted names) ?_
  exact ((List.mergeSort_perm _ _).trans perm.symm).trans (List.mergeSort_perm _ _).symm

namespace Universe

/-- Declarations of new and distinct names are appended in their order. -/
theorem decls_insertAll {u : Universe} {ds : List Decl} (distinct : (ds.map Decl.name).Nodup)
    (own : ∀ d ∈ ds, d.name ∉ u.decls.keys) :
    (u.insertAll ds).decls = u.decls ++ ds.map fun d => (d.name, d.canonical u.normalizer) := by
  induction ds generalizing u with
  | nil => exact (List.append_nil _).symm
  | cons d ds ih =>
    obtain ⟨new, distinct⟩ := List.nodup_cons.mp distinct
    have first : (u.insert d).decls = u.decls ++ [(d.name, d.canonical u.normalizer)] :=
      Assoc.insert_of_not_mem (own d List.mem_cons_self)
    have later := ih (u := u.insert d) distinct fun other hother => by
      rw [first, Assoc.keys, List.map_append, List.mem_append, not_or]
      refine ⟨own other (List.mem_cons_of_mem _ hother), fun same => ?_⟩
      have named : other.name = d.name := List.mem_singleton.mp same
      exact new (List.mem_map.mpr ⟨other, hother, named⟩)
    rw [first, List.append_assoc] at later
    exact later

theorem keys_initial (n : Normalizer) : (initial n).decls.keys = builtIns.map Decl.name := by
  simp only [initial, Assoc.keys, List.map_map]
  rfl

/-- Declarations whose names are distinct, none of them that of a built-in type. -/
structure Distinct (ds : List Decl) : Prop where
  nodup : (ds.map Decl.name).Nodup
  own : ∀ d ∈ ds, d.name ∉ builtIns.map Decl.name

namespace Distinct

variable {n : Normalizer} {ds ds' : List Decl}

theorem perm (h : Distinct ds) (perm : ds.Perm ds') : Distinct ds' :=
  ⟨(perm.map _).nodup h.nodup, fun d hd => h.own d (perm.mem_iff.mpr hd)⟩

theorem decls (h : Distinct ds) : ((initial n).insertAll ds).decls =
    (initial n).decls ++ ds.map fun d => (d.name, d.canonical n) :=
  decls_insertAll h.nodup fun d hd => keys_initial n ▸ h.own d hd

theorem declared (h : Distinct ds) :
    ((initial n).insertAll ds).declared = ds.map (Decl.canonical n) := by
  have count : (initial n).decls.length = builtIns.length := List.length_map _
  rw [Universe.declared, h.decls, ← count, List.drop_left, List.map_map]
  rfl

theorem nodup_keys (h : Distinct ds) : ((initial n).insertAll ds).decls.keys.Nodup := by
  have keys : (ds.map fun d => (d.name, d.canonical n)).map Prod.fst = ds.map Decl.name := by
    rw [List.map_map]
    rfl
  have names : (builtIns.map Decl.name).Nodup := by decide
  rw [h.decls, Assoc.keys, List.map_append, keys, ← Assoc.keys, keys_initial,
    List.nodup_append']
  refine ⟨names, h.nodup, fun name builtIn declared => ?_⟩
  obtain ⟨d, hd, rfl⟩ := List.mem_map.mp declared
  exact h.own d hd builtIn

/-- In whatever order they are inserted, the same types are declared. -/
theorem sameTypes (h : Distinct ds) (perm : ds.Perm ds') :
    ((initial n).insertAll ds).SameTypes ((initial n).insertAll ds') := by
  have reordered : ((initial n).insertAll ds).decls.Perm ((initial n).insertAll ds').decls := by
    rw [h.decls, (h.perm perm).decls]
    exact (perm.map _).append_left _
  exact ⟨Assoc.get?_of_perm reordered h.nodup_keys, reordered.symm⟩

/-- The roots of the command line are sorted. -/
theorem defaultRoots (h : Distinct ds) (perm : ds.Perm ds') :
    CommandLine.defaultRoots ((initial n).insertAll ds') =
      CommandLine.defaultRoots ((initial n).insertAll ds) := by
  rw [CommandLine.defaultRoots, CommandLine.defaultRoots, h.declared, (h.perm perm).declared]
  exact mergeSort_of_perm (((perm.map _).filter _).map _)

end Distinct

end Universe

end Schemata
