import Schemata.Pass.Budget
import Schemata.Proofs.Pass.Calls

/-!
# The texts of directives

Whatever a directive names is written in it as a text, at whatever depth.  The texts of a
directive are no longer than what is counted for it.
-/
namespace Schemata

namespace Json

mutual

/-- The texts in a value, without the keys of its members. -/
def textsIn : Json → List String
  | .str text => [text]
  | .arr items => textsInItems items
  | .obj members => textsInMembers members
  | _ => []

def textsInItems : List Json → List String
  | [] => []
  | value :: rest => textsIn value ++ textsInItems rest

def textsInMembers : List (String × Json) → List String
  | [] => []
  | (_, value) :: rest => textsIn value ++ textsInMembers rest

end

/-- What a text takes up. -/
def textSize (text : String) : Nat := text.length + 1

mutual

theorem size_textsIn_le : (value : Json) → sumOf textSize (textsIn value) ≤ Budget.json value
  | .str text => by simp [textsIn, Budget.json, textSize]
  | .arr items => Nat.le_succ_of_le (size_textsInItems_le items)
  | .obj members => Nat.le_succ_of_le (size_textsInMembers_le members)
  | .null | .bool _ | .num _ => Nat.zero_le _

theorem size_textsInItems_le :
    (items : List Json) → sumOf textSize (textsInItems items) ≤ Budget.jsonItems items
  | [] => Nat.le_refl _
  | value :: rest => by
    rw [textsInItems, sumOf_append, Budget.jsonItems]
    exact Nat.add_le_add (size_textsIn_le value) (size_textsInItems_le rest)

theorem size_textsInMembers_le :
    (members : List (String × Json)) →
      sumOf textSize (textsInMembers members) ≤ Budget.jsonMembers members
  | [] => Nat.le_refl _
  | (key, value) :: rest => by
    have first := size_textsIn_le value
    have others := size_textsInMembers_le rest
    rw [textsInMembers, sumOf_append, Budget.jsonMembers]
    omega

end

theorem textsIn_subset_of_mem_items {value : Json} {items : List Json} (h : value ∈ items) :
    textsIn value ⊆ textsInItems items := by
  induction items with
  | nil => cases h
  | cons first rest ih =>
    rw [textsInItems]
    rcases List.mem_cons.mp h with rfl | later
    · exact List.subset_append_left _ _
    · exact List.Subset.trans (ih later) (List.subset_append_right _ _)

theorem textsIn_subset_of_mem_members {entry : String × Json} {members : List (String × Json)}
    (h : entry ∈ members) : textsIn entry.2 ⊆ textsInMembers members := by
  induction members with
  | nil => cases h
  | cons first rest ih =>
    rw [textsInMembers]
    rcases List.mem_cons.mp h with rfl | later
    · exact List.subset_append_left _ _
    · exact List.Subset.trans (ih later) (List.subset_append_right _ _)

theorem mem_textsIn_of_asStr? {value : Json} {text : String} (h : value.asStr? = some text) :
    text ∈ textsIn value := by
  cases value <;> simp_all [asStr?, textsIn]

theorem filterMap_asStr?_subset (items : List Json) :
    items.filterMap asStr? ⊆ textsInItems items := by
  intro text htext
  obtain ⟨value, hvalue, same⟩ := List.mem_filterMap.mp htext
  exact textsIn_subset_of_mem_items hvalue (mem_textsIn_of_asStr? same)

end Json

open Json

namespace Directive

variable {d : Directive} {key : String}

theorem textsIn_subset_of_get? {value : Json} (h : d.get? key = some value) :
    textsIn value ⊆ textsInMembers d :=
  textsIn_subset_of_mem_members (Assoc.mem_of_get? h)

theorem mem_texts_of_text? {text : String} (h : d.text? key = some text) :
    text ∈ textsInMembers d := by
  unfold text? at h
  split at h
  · rename_i found hget
    split at h
    · cases h
    · cases h
      exact textsIn_subset_of_get? hget (List.mem_singleton_self _)
  · cases h

theorem texts_subset (d : Directive) (key : String) : d.texts key ⊆ textsInMembers d := by
  unfold texts
  split
  · rename_i found hget
    split
    · exact List.nil_subset _
    · exact textsIn_subset_of_get? hget
  · rename_i items hget
    have inside : items.filterMap asStr? ⊆ textsInMembers d :=
      List.Subset.trans (filterMap_asStr?_subset items) (textsIn_subset_of_get? hget)
    exact fun text htext => inside (List.mem_filter.mp htext).1
  · exact List.nil_subset _

theorem section?_subset {members : Directive} (h : d.section? key = some members) :
    textsInMembers members ⊆ textsInMembers d := by
  unfold section? at h
  split at h
  · rename_i found hget
    cases h
    exact textsIn_subset_of_get? hget
  · cases h

theorem toList_text?_subset (d : Directive) (key : String) :
    (d.text? key).toList ⊆ textsInMembers d := by
  intro text htext
  exact mem_texts_of_text? (Option.mem_toList.mp htext)

theorem discriminatorNames_subset (d : Directive) : d.discriminatorNames ⊆ textsInMembers d := by
  unfold discriminatorNames
  split
  · rename_i inner hinner
    refine List.Subset.trans ?_ (section?_subset hinner)
    cases hmapping : inner.section? "mappingSchemas" with
    | none => exact List.nil_subset _
    | some members =>
      refine List.Subset.trans ?_ (section?_subset hmapping)
      intro text htext
      obtain ⟨entry, hentry, same⟩ := List.mem_filterMap.mp htext
      exact textsIn_subset_of_mem_members hentry (mem_textsIn_of_asStr? same)
  · exact List.nil_subset _

theorem additionalNames_subset (d : Directive) : d.additionalNames ⊆ textsInMembers d := by
  unfold additionalNames
  split
  · rename_i text hget
    exact textsIn_subset_of_get? hget
  · exact List.nil_subset _

/-- The types that a schema directive names are written in it. -/
theorem typeNames_subset (d : Directive) : d.typeNames ⊆ textsInMembers d := by
  have alternatives (key : String) := d.texts_subset key
  simp only [typeNames, List.append_subset]
  exact ⟨⟨⟨d.discriminatorNames_subset, d.additionalNames_subset⟩, d.toList_text?_subset "not"⟩,
    ⟨alternatives "allOf", alternatives "anyOf"⟩, alternatives "oneOf"⟩

theorem itemNames_subset (items : Directive) : items.itemNames ⊆ textsInMembers items := by
  unfold itemNames
  split
  · rename_i text htext
    exact List.cons_subset.mpr ⟨mem_texts_of_text? htext, List.nil_subset _⟩
  · exact items.typeNames_subset

theorem arrayTypeNames_subset (d : Directive) : d.arrayTypeNames ⊆ textsInMembers d := by
  rw [arrayTypeNames, List.append_subset]
  refine ⟨d.typeNames_subset, ?_⟩
  cases hitems : d.section? "items" with
  | none => exact List.nil_subset _
  | some items => exact List.Subset.trans (itemNames_subset items) (section?_subset hitems)

end Directive

namespace Directives

/-- The texts of some directives. -/
def textsIn (ds : Directives) : List String := ds.flatMap fun entry => textsInMembers entry.2

theorem textsIn_subset_of_get? {ds : Directives} {kind : DirectiveKind} {d : Directive}
    (h : ds.get? kind = some d) : textsInMembers d ⊆ ds.textsIn := by
  intro text htext
  exact List.mem_flatMap.mpr ⟨(kind, d), Assoc.mem_of_get? h, htext⟩

/-- The types that the schema directives of an element name are written in its directives. -/
theorem typeNames_subset (ds : Directives) : ds.typeNames ⊆ ds.textsIn := by
  rw [typeNames, List.append_subset]
  constructor
  · cases h : ds.get? .schema with
    | none => exact List.nil_subset _
    | some d => exact List.Subset.trans d.typeNames_subset (textsIn_subset_of_get? h)
  · cases h : ds.get? .arraySchema with
    | none => exact List.nil_subset _
    | some d => exact List.Subset.trans d.arrayTypeNames_subset (textsIn_subset_of_get? h)

theorem size_textsIn_le (ds : Directives) : sumOf textSize ds.textsIn ≤ Budget.directives ds := by
  rw [textsIn, sumOf_flatMap, Budget.directives]
  exact sumOf_le_sumOf fun entry _ => Nat.le_succ_of_le (size_textsInMembers_le entry.2)

end Directives

end Schemata
