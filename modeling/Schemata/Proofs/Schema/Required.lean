import Schemata.Proofs.Schema.Properties

/-!
# Required names

Of the properties that are added one after the other the last under a name is kept, in the place
of the first.  The required names do not follow: a name is listed from the first property on that
is required, and a later one that is not required does not take it off the list.
-/
namespace Schemata

namespace Schema

/-- The property that was added last under a name. -/
def lastAdded? (added : List Property) (name : String) : Option Property :=
  (added.filter (·.name = name)).getLast?

/-- What a schema without properties comes to: each name stands in the place of the first property
that was added under it, with the schema of the last, and is required if any of them was. -/
structure Tracks (s : Schema) (added : List Property) : Prop where
  names : s.propertyNames = (added.map Property.name).eraseDups
  schemas (name : String) :
    Assoc.get? s.properties name = (lastAdded? added name).map Property.schema
  required : s.required = ((added.filter Property.required).map Property.name).eraseDups

/-- What is added to the properties and to the required names is added to each apart. -/
theorem properties_addAll (s : Schema) (added : List Property) : (s.addAll added).properties =
    (added.map fun p => (p.name, p.schema)).foldl (fun m pair => Assoc.insert m pair.1 pair.2)
      s.properties := by
  induction added generalizing s with
  | nil => rfl
  | cons p rest ih => exact ih (s.addProperty p.name p.schema p.required)

theorem required_addAll (s : Schema) (added : List Property) : (s.addAll added).required =
    ((added.filter Property.required).map Property.name).foldl
      (fun names name => if names.contains name then names else names ++ [name]) s.required := by
  induction added generalizing s with
  | nil => rfl
  | cons p rest ih =>
    refine (ih (s.addProperty p.name p.schema p.required)).trans ?_
    rw [List.filter_cons]
    cases required : p.required with
    | false => rfl
    | true =>
      rw [if_pos rfl, List.map_cons, List.foldl_cons]
      simp [addProperty]

theorem tracks_addAll {base : Schema} (properties : base.properties = [])
    (required : base.required = []) (added : List Property) : (base.addAll added).Tracks added where
  names := by
    have pairs : Assoc.keys (added.map fun p => (p.name, p.schema)) = added.map Property.name := by
      rw [Assoc.keys, List.map_map]
      rfl
    rw [propertyNames, properties_addAll, properties, ← pairs]
    exact Assoc.keys_ofList _
  schemas name := by
    rw [properties_addAll, properties, Assoc.get?_foldl_insert, Assoc.get?_nil, Option.or_none,
      List.filter_map, List.getLast?_map, Option.map_map, lastAdded?]
    rfl
  required := by
    rw [required_addAll, required, foldl_addNew List.nodup_nil, List.nil_append]

section

variable {s : Schema} {added : List Property} (tracks : s.Tracks added)

include tracks

theorem Tracks.mem_required {name : String} :
    name ∈ s.required ↔ ∃ p ∈ added, p.name = name ∧ p.required = true := by
  rw [tracks.required, List.mem_eraseDups, List.mem_map]
  simp only [List.mem_filter, and_assoc]
  exact exists_congr fun p => and_congr_right fun _ => and_comm

theorem Tracks.required_subset : s.required ⊆ s.propertyNames := by
  intro name required
  obtain ⟨p, hp, rfl, -⟩ := tracks.mem_required.mp required
  rw [tracks.names, List.mem_eraseDups]
  exact List.mem_map_of_mem hp

end

/-- A name was required once, and the last property under it is not. -/
def IsOutdated (added : List Property) (name : String) : Prop :=
  (∃ p ∈ added, p.name = name ∧ p.required = true) ∧
    (lastAdded? added name).any Property.required = false

/-- A name is required as the last property under it is, unless it is outdated. -/
theorem Tracks.mem_required_iff_last {s : Schema} {added : List Property}
    (tracks : s.Tracks added) (name : String) :
    (name ∈ s.required ↔ (lastAdded? added name).any Property.required = true) ↔
      ¬ IsOutdated added name := by
  rw [tracks.mem_required, IsOutdated]
  cases stated : (lastAdded? added name).any Property.required with
  | false => simp
  | true =>
    obtain ⟨last, hlast, required⟩ := (Option.any_eq_true _ _).mp stated
    have added := List.mem_filter.mp (List.mem_of_getLast? hlast)
    simp only [iff_true, and_false, not_false_eq_true, reduceCtorEq]
    exact ⟨last, added.1, of_decide_eq_true added.2, required⟩

/-- Every name that is required is that of a property and is listed once.  A name is required from
the first property on that is, and so it is as the last property under it says, unless that takes
back what an earlier one said. -/
theorem requiredNames_of_addAll {base : Schema} (properties : base.properties = [])
    (required : base.required = []) (added : List Property) :
    (base.addAll added).required.Nodup ∧
      (base.addAll added).required ⊆ (base.addAll added).propertyNames ∧
      (base.addAll added).Tracks added ∧
      ∀ name, (name ∈ (base.addAll added).required ↔
        (lastAdded? added name).any Property.required = true) ↔ ¬ IsOutdated added name := by
  have tracks := tracks_addAll properties required added
  refine ⟨?_, tracks.required_subset, tracks, tracks.mem_required_iff_last⟩
  rw [tracks.required]
  exact nodup_eraseDups _

/-- An identifier that is required, and a second property under its name that is not. -/
def reusedId : List Property :=
  [⟨"id", .typed .integer, true⟩, ⟨"id", .typed .string, false⟩]

theorem requiredNames_of_addAll_reusedId : (object : Schema).properties = [] ∧
    (object : Schema).required = [] ∧ (object.addAll reusedId).required = ["id"] ∧
    (object.addAll reusedId).Tracks reusedId :=
  ⟨rfl, rfl, rfl, (requiredNames_of_addAll rfl rfl reusedId).2.2.1⟩

/-- The name stays required, though the property that is kept under it is not. -/
theorem not_requiredAsLast_reusedId : ¬ ∀ name, name ∈ (object.addAll reusedId).required ↔
    (lastAdded? reusedId name).any Property.required = true := by
  intro follows
  have required : "id" ∈ (object.addAll reusedId).required := List.mem_singleton_self _
  cases (follows "id").mp required

end Schema

end Schemata
