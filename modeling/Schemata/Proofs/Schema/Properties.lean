import Schemata.Pass.Definition
import Schemata.Proofs.Assoc

/-!
# The properties of a schema

A property that is added takes its place among the names of a schema, which otherwise only grow.
What a composition says inline belongs to it like its own properties, while a reference stands
for a definition of its own, whose properties are found in the registry.
-/
namespace Schemata

/-- The name that a property takes in the place of an unwrapped member. -/
def Directive.affixed (d : Directive) (name : String) : String :=
  (d.text? "prefix").getD "" ++ name ++ (d.text? "suffix").getD ""

namespace Schema

theorem isRef_of_refName? {s : Schema} {name : String} (h : s.refName? = some name) :
    s.isRef = true := by
  obtain ⟨path, hpath, -⟩ := Option.bind_eq_some_iff.mp h
  rw [isRef, hpath, Option.isSome_some]

/-- The names of the properties that the schema has by itself. -/
def propertyNames (s : Schema) : List String := Assoc.keys s.properties

theorem mem_propertyNames_addProperty {s value : Schema} {name other : String} {required : Bool} :
    other ∈ (s.addProperty name value required).propertyNames ↔
      other = name ∨ other ∈ s.propertyNames := by
  change other ∈ Assoc.keys (Assoc.insert s.properties name value) ↔ _
  rw [Assoc.mem_keys_insert]
  rfl

/-- A schema with some properties added, one after the other. -/
def addAll (s : Schema) (added : List Property) : Schema :=
  added.foldl (fun s p => s.addProperty p.name p.schema p.required) s

theorem addAll_append (s : Schema) (first second : List Property) :
    s.addAll (first ++ second) = (s.addAll first).addAll second := by
  rw [addAll, List.foldl_append]
  rfl

theorem inlined_eq_addAll (parent : Schema) (r : Registry) (d : Directive) (s : Schema) :
    parent.inlined r d s = parent.addAll ((s.allProperties r).map fun p =>
      { p with name := d.affixed p.name }) := by
  rw [addAll, List.foldl_map]
  rfl

/-- Nothing else changes, and what else there is makes no difference. -/
theorem addAll_eq (s : Schema) (added : List Property) : s.addAll added =
    { s with
      properties := (({ properties := s.properties, required := s.required } : Schema).addAll
        added).properties
      required := (({ properties := s.properties, required := s.required } : Schema).addAll
        added).required } := by
  induction added generalizing s with
  | nil =>
    cases s
    rfl
  | cons p rest ih =>
    rw [addAll, List.foldl_cons]
    exact ih _

/-- Properties that are added one after the other, the later ones in the place of earlier ones. -/
theorem mem_propertyNames_addAll {s : Schema} {added : List Property} {name : String} :
    name ∈ (s.addAll added).propertyNames ↔
      name ∈ s.propertyNames ∨ ∃ p ∈ added, p.name = name := by
  induction added generalizing s with
  | nil => simp [addAll]
  | cons p rest ih =>
    refine (ih (s := s.addProperty p.name p.schema p.required)).trans ?_
    rw [mem_propertyNames_addProperty, or_assoc, or_left_comm, eq_comm (a := name)]
    simp only [List.mem_cons, or_and_right, exists_or, exists_eq_left]

theorem mem_properties_addAll {s : Schema} {added : List Property} {property : String × Schema}
    (h : property ∈ (s.addAll added).properties) :
    property ∈ s.properties ∨ ∃ p ∈ added, property = (p.name, p.schema) := by
  induction added generalizing s with
  | nil => exact .inl h
  | cons p rest ih =>
    rcases ih h with before | ⟨later, hlater, same⟩
    · refine (Assoc.mem_of_mem_insert before).imp_right fun same => ?_
      exact ⟨p, List.mem_cons_self, same⟩
    · exact .inr ⟨later, List.mem_cons_of_mem _ hlater, same⟩

theorem mem_required_addProperty {s value : Schema} {name other : String} {required : Bool} :
    name ∈ (s.addProperty other value required).required ↔
      name ∈ s.required ∨ other = name ∧ required = true := by
  unfold addProperty
  dsimp only
  by_cases listed : other ∈ s.required
  · have contained : s.required.contains other = true := by simpa using listed
    simp only [contained, Bool.not_true, Bool.and_false, Bool.false_eq_true, if_false]
    exact ⟨.inl, fun h => h.elim id fun ⟨same, _⟩ => same ▸ listed⟩
  · have missing : s.required.contains other = false := by simpa using listed
    cases required with
    | false => simp
    | true =>
      rw [missing, Bool.not_false, Bool.and_true, if_pos rfl, List.mem_append, List.mem_singleton,
        eq_comm (a := name), and_iff_left rfl]

theorem mem_required_addAll {s : Schema} {added : List Property} {name : String} :
    name ∈ (s.addAll added).required ↔
      name ∈ s.required ∨ ∃ p ∈ added, p.name = name ∧ p.required = true := by
  induction added generalizing s with
  | nil => simp [addAll]
  | cons p rest ih =>
    refine (ih (s := s.addProperty p.name p.schema p.required)).trans ?_
    rw [mem_required_addProperty, or_assoc]
    simp only [List.mem_cons, or_and_right, exists_or, exists_eq_left]

/-- Nothing is required unless it was added. -/
theorem required_addAll_eq_nil {s : Schema} {added : List Property} (empty : s.required = [])
    (none : (s.addAll added).properties = []) : (s.addAll added).required = [] := by
  refine List.eq_nil_iff_forall_not_mem.mpr fun name required => ?_
  rcases mem_required_addAll.mp required with old | ⟨p, hp, named, -⟩
  · rw [empty] at old
    cases old
  · have listed := mem_propertyNames_addAll (s := s).mpr (.inr ⟨p, hp, named⟩)
    rw [propertyNames, none] at listed
    cases listed

/-- Nothing but the properties of the schema is added, with what the directive puts around
their names. -/
theorem mem_properties_inlined {parent s : Schema} {r : Registry} {d : Directive}
    {property : String × Schema} (h : property ∈ (parent.inlined r d s).properties) :
    property ∈ parent.properties ∨ ∃ p ∈ s.allProperties r, property =
      ((d.text? "prefix").getD "" ++ p.name ++ (d.text? "suffix").getD "", p.schema) := by
  rw [inlined_eq_addAll] at h
  refine (mem_properties_addAll h).imp_right ?_
  rintro ⟨_, hadded, rfl⟩
  obtain ⟨p, hp, rfl⟩ := List.mem_map.mp hadded
  exact ⟨p, hp, rfl⟩

/-- Nothing but the properties and the required names changes. -/
theorem exists_inlined (parent : Schema) (r : Registry) (d : Directive) (s : Schema) :
    ∃ properties required, parent.inlined r d s =
      { parent with properties := properties, required := required } := by
  rw [inlined_eq_addAll, addAll_eq]
  exact ⟨_, _, rfl⟩

theorem allOf_inlined (parent : Schema) (r : Registry) (d : Directive) (s : Schema) :
    (parent.inlined r d s).allOf = parent.allOf := by
  obtain ⟨_, _, same⟩ := exists_inlined parent r d s
  rw [same]

/-- Settling changes what an object is composed of, and makes a composition an object. -/
theorem exists_settled (s : Schema) : s.settled = s ∨ ∃ properties required allOf,
    s.settled = { s with
      type := some .object, properties := properties, required := required, allOf := allOf } := by
  unfold settled
  split
  · exact .inl rfl
  · split <;> exact .inr ⟨_, _, _, rfl⟩

/-! ### Parts -/

theorem mem_pushNew {list : List Schema} {s part : Schema} (h : part ∈ pushNew list s) :
    part ∈ list ∨ part = s := by
  unfold pushNew at h
  split at h
  · exact .inl h
  · simpa using h

theorem mem_pushAll {list added : List Schema} {part : Schema}
    (h : part ∈ added.foldl pushNew list) : part ∈ list ∨ part ∈ added := by
  induction added generalizing list with
  | nil => exact .inl h
  | cons s rest ih =>
    rcases ih h with old | later
    · rcases mem_pushNew old with old | rfl
      · exact .inl old
      · exact .inr List.mem_cons_self
    · exact .inr (List.mem_cons_of_mem _ later)

theorem subset_pushNew (list : List Schema) (s : Schema) : list ⊆ pushNew list s := by
  unfold pushNew
  split
  · exact List.Subset.refl _
  · exact List.subset_append_left _ _

theorem subset_pushAll (list added : List Schema) : list ⊆ added.foldl pushNew list := by
  induction added generalizing list with
  | nil => exact List.Subset.refl _
  | cons s rest ih => exact List.Subset.trans (subset_pushNew list s) (ih _)

theorem eq_nil_of_pushAll {list added : List Schema} (h : added.foldl pushNew list = []) :
    list = [] := by
  exact List.subset_nil.mp (h ▸ subset_pushAll list added)

/-- The schema has the property, by itself or in a part that is no reference. -/
inductive Lists : Schema → String × Schema → Prop where
  | own {s : Schema} {property : String × Schema} (h : property ∈ s.properties) :
      Lists s property
  | part {s part : Schema} {property : String × Schema} (h : part ∈ s.allOf)
      (inline : part.isRef = false) (inner : Lists part property) : Lists s property

variable {s t : Schema} {property : String × Schema}

theorem Lists.congr (h : t.Lists property) (properties : s.properties = t.properties)
    (parts : s.allOf = t.allOf) : s.Lists property := by
  cases h with
  | own h => exact .own (properties ▸ h)
  | part h inline inner => exact .part (parts ▸ h) inline inner

/-- Where all parts are references, a schema lists its own properties only. -/
theorem Lists.of_references (h : s.Lists property)
    (references : ∀ part ∈ s.allOf, part.isRef = true) : property ∈ s.properties := by
  cases h with
  | own h => exact h
  | part h inline =>
    rw [references _ h] at inline
    cases inline

/-- Own properties that become a part are listed as before. -/
theorem Lists.of_settled (h : s.settled.Lists property) : s.Lists property := by
  unfold settled at h
  split at h
  · exact h
  · split at h
    · exact h.congr rfl rfl
    · cases h with
      | own h => cases h
      | part h inline inner =>
        rcases List.mem_append.mp h with old | last
        · exact .part old inline inner
        · rw [List.mem_singleton.mp last] at inner
          exact .own (inner.of_references fun _ none => by cases none)

theorem Lists.of_completed {u : Universe} {t : TypeRef} (h : (s.completed u t).Lists property) :
    s.Lists property := by
  unfold completed at h
  split at h
  · exact h.congr rfl rfl
  · exact h

end Schema

/-- Some registered schema has the property. -/
def Registry.Lists (r : Registry) (property : String × Schema) : Prop :=
  ∃ entry ∈ r.schemas, entry.2.Lists property

end Schemata
