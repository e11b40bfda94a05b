import Schemata.Directive.Basic
import Schemata.Proofs.Json.Settled

/-!
# Settled directives

What is read from JSON has one directive of each kind, and no key stands twice in any of them.
Such directives are what they are read from once they are written.
-/
namespace Schemata

namespace Directives

/-- The directives are those of different kinds, and nothing in them has a key twice. -/
structure IsSettled (ds : Directives) : Prop where
  distinct : (Assoc.keys ds).Nodup
  members : ∀ entry ∈ ds, (Json.obj entry.2).IsSettled

theorem isSettled_nil : IsSettled [] := ⟨List.nodup_nil, fun _ h => by cases h⟩

theorem isSettled_directiveOf? {value : Json} {d : Directive} (settled : value.IsSettled)
    (h : directiveOf? value = some d) : (Json.obj d).IsSettled := by
  have scalar (value : Json) (settled : value.IsSettled) :
      (Json.obj [("value", value)]).IsSettled :=
    Json.isSettled_obj (by simpa using settled) (by simp [Assoc.keys])
  cases value with
  | obj members =>
    cases h
    exact settled
  | bool b =>
    cases b with
    | false => cases h
    | true => cases h; rfl
  | null => cases h; rfl
  | num n => cases h; exact scalar _ settled
  | str s => cases h; exact scalar _ settled
  | arr items => cases h; exact scalar _ settled

theorem isSettled_ofJson? {value : Json} {ds : Directives} (h : ofJson? value = some ds) :
    ds.IsSettled := by
  have settled := Json.isSettled_settle value
  rw [ofJson?] at h
  cases hs : value.settle with
  | obj members =>
    rw [hs] at h settled
    cases h
    refine ⟨Assoc.nodup_keys_ofList _, ?_⟩
    intro entry hentry
    obtain ⟨member, hmember, found⟩ := List.mem_filterMap.mp (Assoc.mem_of_mem_ofList hentry)
    simp only [Option.bind_eq_bind, Option.bind_eq_some_iff, Option.pure_def,
      Option.some.injEq] at found
    obtain ⟨kind, -, d, hd, rfl⟩ := found
    exact isSettled_directiveOf? (settled.of_mem_obj hmember) hd
  | _ =>
    rw [hs] at h
    cases h

theorem ofJson?_toJson {ds : Directives} (h : ds.IsSettled) : ofJson? ds.toJson = some ds := by
  have names : (Assoc.keys (ds.map fun entry => (entry.1.name, Json.obj entry.2))).Nodup := by
    have distinct := h.distinct
    simp only [Assoc.keys, List.Nodup, List.pairwise_map] at distinct ⊢
    refine distinct.imp fun {a b} other same => other ?_
    have read := congrArg DirectiveKind.ofName? same
    simpa using read
  have settled : ds.toJson.IsSettled := by
    apply Json.isSettled_obj _ names
    intro m hm
    obtain ⟨entry, hentry, rfl⟩ := List.mem_map.mp hm
    exact h.members entry hentry
  rw [ofJson?, settled]
  simp only [toJson, ofMembers, List.filterMap_map]
  have kept : (ds.filterMap fun entry => some entry) = ds := List.filterMap_some
  conv => rhs; rw [← Assoc.ofList_of_nodup h.distinct, ← kept]
  congr 3
  funext entry
  simp [directiveOf?]

end Directives

end Schemata
