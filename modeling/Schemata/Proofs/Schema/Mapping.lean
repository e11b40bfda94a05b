import Schemata.Proofs.Schema.References

/-!
# Schemas with other facets

What holds of a schema as soon as it holds of its parts holds of every schema.  The facets of a
schema and of all within it can be changed in one way or another; two changes come to equal schemas
exactly when they come to equal facets everywhere.
-/
namespace Schemata

/-- The schema that additional properties have, changed. -/
def Additional.map {σ τ : Type} (f : σ → τ) : Additional σ → Additional τ
  | .allowed any => .allowed any
  | .schema value => .schema (f value)

namespace Schema

variable {s part : Schema} {f g : Facets → Facets}

/-- The parts of a schema are smaller than it is. -/
theorem sizeOf_lt_of_mem_parts (h : part ∈ s.parts) : sizeOf part < sizeOf s := by
  obtain ⟨name, ref, type, labels, facets, items, properties, required, additional, allOf, oneOf,
    anyOf, not⟩ := s
  rw [mem_parts] at h
  simp only [mk.sizeOf_spec]
  rcases h with same | listed | same | listed | listed | listed | same
  · have smaller := congrArg sizeOf same
    simp only [Option.some.sizeOf_spec] at smaller
    omega
  · obtain ⟨⟨name, value⟩, member, rfl⟩ := List.mem_map.mp listed
    have smaller : sizeOf (name, value) < sizeOf properties := List.sizeOf_lt_of_mem member
    rw [Prod.mk.sizeOf_spec] at smaller
    dsimp only
    omega
  · have smaller := congrArg sizeOf same
    simp only [Option.some.sizeOf_spec, Additional.schema.sizeOf_spec] at smaller
    omega
  · have smaller : sizeOf part < sizeOf allOf := List.sizeOf_lt_of_mem listed
    omega
  · have smaller : sizeOf part < sizeOf oneOf := List.sizeOf_lt_of_mem listed
    omega
  · have smaller : sizeOf part < sizeOf anyOf := List.sizeOf_lt_of_mem listed
    omega
  · have smaller := congrArg sizeOf same
    simp only [Option.some.sizeOf_spec] at smaller
    omega

/-- What a schema has as soon as its parts have it, all schemas have. -/
@[elab_as_elim]
theorem parts_induction {P : Schema → Prop} (step : ∀ s, (∀ part ∈ s.parts, P part) → P s)
    (s : Schema) : P s :=
  step s fun part _ => parts_induction step part
termination_by sizeOf s
decreasing_by exact sizeOf_lt_of_mem_parts ‹_›

mutual

/-- The schema with its facets, and those of all within it, changed. -/
def mapFacets (f : Facets → Facets) : Schema → Schema
  | ⟨name, ref, type, labels, facets, items, properties, required, additional, allOf, oneOf,
      anyOf, not⟩ =>
    ⟨name, ref, type, labels, f facets, mapFacetsOption f items, mapFacetsProperties f properties,
      required, mapFacetsAdditional f additional, mapFacetsList f allOf, mapFacetsList f oneOf,
      mapFacetsList f anyOf, mapFacetsOption f not⟩

def mapFacetsOption (f : Facets → Facets) : Option Schema → Option Schema
  | none => none
  | some s => some (mapFacets f s)

def mapFacetsList (f : Facets → Facets) : List Schema → List Schema
  | [] => []
  | s :: rest => mapFacets f s :: mapFacetsList f rest

def mapFacetsProperties (f : Facets → Facets) : List (String × Schema) → List (String × Schema)
  | [] => []
  | (name, s) :: rest => (name, mapFacets f s) :: mapFacetsProperties f rest

def mapFacetsAdditional (f : Facets → Facets) :
    Option (Additional Schema) → Option (Additional Schema)
  | none => none
  | some (.allowed any) => some (.allowed any)
  | some (.schema s) => some (.schema (mapFacets f s))

end

theorem mapFacetsOption_eq_map (f : Facets → Facets) (s : Option Schema) :
    mapFacetsOption f s = s.map (mapFacets f) := by
  cases s with
  | none => rw [mapFacetsOption, Option.map_none]
  | some s => rw [mapFacetsOption, Option.map_some]

theorem mapFacetsList_eq_map (f : Facets → Facets) (list : List Schema) :
    mapFacetsList f list = list.map (mapFacets f) := by
  induction list with
  | nil => rw [mapFacetsList, List.map_nil]
  | cons s rest ih => rw [mapFacetsList, ih, List.map_cons]

theorem mapFacetsProperties_eq_map (f : Facets → Facets) (properties : List (String × Schema)) :
    mapFacetsProperties f properties = properties.map fun p => (p.1, mapFacets f p.2) := by
  induction properties with
  | nil => rw [mapFacetsProperties, List.map_nil]
  | cons p rest ih => rw [mapFacetsProperties, ih, List.map_cons]

theorem mapFacetsAdditional_eq_map (f : Facets → Facets) (additional : Option (Additional Schema)) :
    mapFacetsAdditional f additional = additional.map (Additional.map (mapFacets f)) := by
  cases additional with
  | none => rw [mapFacetsAdditional, Option.map_none]
  | some additional =>
    cases additional with
    | allowed any => rw [mapFacetsAdditional, Option.map_some, Additional.map]
    | schema s => rw [mapFacetsAdditional, Option.map_some, Additional.map]

theorem mapFacets_eq (f : Facets → Facets) (s : Schema) : s.mapFacets f =
    ⟨s.name, s.ref, s.type, s.labels, f s.facets, s.items.map (mapFacets f),
      s.properties.map fun p => (p.1, p.2.mapFacets f), s.required,
      s.additional.map (Additional.map (mapFacets f)), s.allOf.map (mapFacets f),
      s.oneOf.map (mapFacets f), s.anyOf.map (mapFacets f), s.not.map (mapFacets f)⟩ := by
  obtain ⟨name, ref, type, labels, facets, items, properties, required, additional, allOf, oneOf,
    anyOf, not⟩ := s
  simp only [mapFacets, mapFacetsOption_eq_map, mapFacetsProperties_eq_map, mapFacetsList_eq_map,
    mapFacetsAdditional_eq_map]

/-- A change of nothing. -/
theorem mapFacets_id (s : Schema) : s.mapFacets id = s := by
  induction s using parts_induction with
  | step s ih =>
    have one (found : Option Schema) (sub : ∀ part, found = some part → part ∈ s.parts) :
        found.map (mapFacets id) = found := by
      cases found with
      | none => rfl
      | some part => rw [Option.map_some, ih part (sub part rfl)]
    have each (list : List Schema) (sub : ∀ part ∈ list, part ∈ s.parts) :
        list.map (mapFacets id) = list := by
      rw [List.map_congr_left (g := id) fun part h => ih part (sub part h), List.map_id]
    have values : s.properties.map (fun p => (p.1, p.2.mapFacets id)) = s.properties := by
      rw [List.map_congr_left (g := id) fun p h => ?_, List.map_id]
      rw [ih p.2 (mem_parts.mpr (.inr (.inl (List.mem_map_of_mem h))))]
      rfl
    have rest : s.additional.map (Additional.map (mapFacets id)) = s.additional := by
      cases same : s.additional with
      | none => rfl
      | some additional =>
        cases additional with
        | allowed any => rfl
        | schema part =>
          rw [Option.map_some, Additional.map, ih part (mem_parts.mpr (by simp [same]))]
    rw [mapFacets_eq, values, rest, one s.items (fun part h => mem_parts.mpr (by simp [h])),
      one s.not (fun part h => mem_parts.mpr (by simp [h])),
      each s.allOf (fun part h => mem_parts.mpr (by simp [h])),
      each s.oneOf (fun part h => mem_parts.mpr (by simp [h])),
      each s.anyOf (fun part h => mem_parts.mpr (by simp [h]))]
    cases s
    rfl

/-! ### Equal schemas -/

theorem eqvOption_map_iff {found : Option Schema} : eqvOption (found.map (mapFacets f))
      (found.map (mapFacets g)) = true ↔
    ∀ s, found = some s → (s.mapFacets f).eqv (s.mapFacets g) = true := by
  cases found with
  | none => simp [eqvOption]
  | some s => simp [eqvOption]

theorem eqvList_map_iff {list : List Schema} : eqvList (list.map (mapFacets f))
      (list.map (mapFacets g)) = true ↔
    ∀ s ∈ list, (s.mapFacets f).eqv (s.mapFacets g) = true := by
  induction list with
  | nil => simp [eqvList]
  | cons s rest ih => rw [List.map_cons, List.map_cons, eqvList, Bool.and_eq_true, ih,
      List.forall_mem_cons]

theorem eqvAdditional_map_iff {additional : Option (Additional Schema)} :
    eqvAdditional (additional.map (Additional.map (mapFacets f)))
      (additional.map (Additional.map (mapFacets g))) = true ↔
    ∀ s, additional = some (.schema s) → (s.mapFacets f).eqv (s.mapFacets g) = true := by
  cases additional with
  | none => simp [eqvAdditional]
  | some additional => cases additional <;> simp [eqvAdditional, Additional.map]

theorem get?_map_value {properties : List (String × Schema)} (h : Schema → Schema) (name : String) :
    Assoc.get? (properties.map fun p => (p.1, h p.2)) name =
      (Assoc.get? properties name).map h := by
  induction properties with
  | nil => rfl
  | cons p rest ih =>
    rw [List.map_cons, Assoc.get?_cons, Assoc.get?_cons, ih]
    split <;> rfl

theorem eqvProperties_map_iff {properties others : List (String × Schema)}
    (found : ∀ p ∈ properties, Assoc.get? others p.1 = some p.2) :
    eqvProperties (properties.map fun p => (p.1, p.2.mapFacets f))
      (others.map fun p => (p.1, p.2.mapFacets g)) = true ↔
    ∀ s ∈ properties.map Prod.snd, (s.mapFacets f).eqv (s.mapFacets g) = true := by
  induction properties with
  | nil => simp [eqvProperties]
  | cons p rest ih =>
    obtain ⟨first, later⟩ := List.forall_mem_cons.mp found
    rw [List.map_cons, eqvProperties, get?_map_value, first, Option.map_some, Bool.and_eq_true,
      ih later, List.map_cons, List.forall_mem_cons]

/-- Two changes come to equal schemas exactly when they come to equal facets everywhere. -/
theorem eqv_mapFacets_iff
    (distinct : Everywhere (fun inner => (Assoc.keys inner.properties).Nodup) s) :
    (s.mapFacets f).eqv (s.mapFacets g) = true ↔
      Everywhere (fun inner => (f inner.facets).eqv (g inner.facets) = true) s := by
  induction s using parts_induction with
  | step s ih =>
    obtain ⟨own, below⟩ := everywhere_iff.mp distinct
    have parts : (∀ part ∈ s.parts,
          Everywhere (fun inner => (f inner.facets).eqv (g inner.facets) = true) part) ↔
        ∀ part ∈ s.parts, (part.mapFacets f).eqv (part.mapFacets g) = true :=
      forall₂_congr fun part h => (ih part h (below part h)).symm
    have found (p : String × Schema) (h : p ∈ s.properties) :
        Assoc.get? s.properties p.1 = some p.2 := (Assoc.get?_eq_some_iff own).mpr h
    rw [everywhere_iff, parts, mapFacets_eq, mapFacets_eq, eqv]
    simp only [Bool.and_eq_true, beq_self_eq_true, true_and, and_true, List.length_map,
      eqvOption_map_iff, eqvList_map_iff, eqvAdditional_map_iff, eqvProperties_map_iff found,
      mem_parts, or_imp, forall_and, and_assoc]

end Schema

end Schemata
