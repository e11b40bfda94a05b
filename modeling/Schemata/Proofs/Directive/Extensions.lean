import Schemata.Proofs.Directive.Lookups
import Schemata.Proofs.Directive.Settled
import Schemata.Schema.Keyword
import Schemata.Universe.Basic

/-!
# Keys of extensions

Canonical form puts the mark of extensions before the names of those that a schema directive
states, whether they are written as a map or in groups.  What an array directive states of its
own, or of items that are written in canonical form already, is taken over as it is.
-/
namespace Schemata

/-- Whether a key has the mark of extensions. -/
def isExtensionKey (key : String) : Bool := (Text.dropBeginning? "x-".toList key.toList).isSome

/-- No keyword of a document has it. -/
theorem Keyword.name_ne_of_isExtensionKey {key : String} (h : isExtensionKey key = true)
    (k : Keyword) : k.name ≠ key := by
  have unmarked : isExtensionKey k.name = false := by cases k <;> decide
  rintro rfl
  cases unmarked.symm.trans h

theorem isExtensionKey_extensionKey (name : String) :
    isExtensionKey (Canonical.extensionKey name) = true := by
  rw [Canonical.extensionKey]
  split
  · assumption
  · have marked : Text.dropBeginning? "x-".toList ("x-".toList ++ name.toList) = some name.toList :=
      Text.dropBeginning?_eq_some_iff.mpr rfl
    rw [isExtensionKey, String.toList_append, marked, Option.isSome_some]

namespace Canonical

/-- The keys of extensions in canonical form: they are different, and all of them have the mark. -/
structure Marked (members : Assoc String Json) : Prop where
  distinct : members.keys.Nodup
  keys : ∀ key ∈ members.keys, isExtensionKey key = true

theorem marked_nil : Marked [] := ⟨List.nodup_nil, fun key hkey => by cases hkey⟩

theorem Marked.insert {m : Assoc String Json} (h : Marked m) (name : String) (value : Json) :
    Marked (m.insert (extensionKey name) value) where
  distinct := Assoc.nodup_keys_insert m _ value h.distinct
  keys key hkey := by
    rcases Assoc.mem_keys_insert.mp hkey with rfl | old
    · exact isExtensionKey_extensionKey name
    · exact h.keys key old

theorem Marked.addGroup {out : Assoc String Json} (h : Marked out)
    (group : List (String × Json)) : Marked (addGroup out group) := by
  unfold Canonical.addGroup
  dsimp only
  split
  · generalize groupProperties group = properties
    induction properties generalizing out with
    | nil => exact h
    | cons property rest ih => exact ih (h.insert property.1 property.2)
  · split
    · exact h
    · exact h.insert _ _

/-- In canonical form all keys of extensions have their mark. -/
theorem marked_of_extensions {value : Json} {members : List (String × Json)}
    (canonical : extensions value = .obj members) : Marked members := by
  cases value with
  | obj written =>
    obtain rfl := Json.obj.inj canonical
    refine ⟨Assoc.nodup_keys_ofList _, fun key hkey => ?_⟩
    obtain ⟨entry, hentry, rfl⟩ := List.mem_map.mp hkey
    obtain ⟨member, -, rfl⟩ := List.mem_map.mp (Assoc.mem_of_mem_ofList hentry)
    exact isExtensionKey_extensionKey member.1
  | arr groups =>
    obtain rfl := Json.obj.inj canonical
    have loop (groups : List (List (String × Json))) {out : Assoc String Json} (h : Marked out) :
        Marked (groups.foldl Canonical.addGroup out) := by
      induction groups generalizing out with
      | nil => exact h
      | cons group rest ih => exact ih (h.addGroup group)
    exact loop _ marked_nil
  | null => cases canonical
  | bool value => cases canonical
  | num value => cases canonical
  | str value => cases canonical

end Canonical

/-! ### Stated keys -/

namespace Directive

theorem section?_eq_some_iff {d members : Directive} {key : String} :
    d.section? key = some members ↔ d.get? key = some (.obj members) := by
  unfold section?
  constructor
  · intro h
    split at h
    · rename_i found
      rw [found, Option.some.inj h]
    · cases h
  · intro h
    rw [h]

/-- The keys of the extensions that the directive states. -/
def extensionKeys (d : Directive) : List String := Assoc.keys ((d.section? "extensions").getD [])

/-- Those that it states for the items of an array. -/
def itemKeys (d : Directive) : List String := ((d.section? "items").map extensionKeys).getD []

/-- Those that canonical form takes over from an array directive as they are. -/
def verbatimKeys (d : Directive) : List String :=
  d.extensionKeys ++ d.itemKeys ++ ((d.section? "arraySchema").map itemKeys).getD []

variable {d : Directive} {key : String}

theorem mem_extensionKeys : key ∈ d.extensionKeys ↔
    ∃ members, d.get? "extensions" = some (.obj members) ∧ key ∈ Assoc.keys members := by
  simp only [← section?_eq_some_iff, extensionKeys]
  cases d.section? "extensions" <;> simp [Assoc.keys]

theorem mem_itemKeys : key ∈ d.itemKeys ↔
    ∃ items : Directive, d.get? "items" = some (.obj items) ∧ key ∈ items.extensionKeys := by
  simp only [← section?_eq_some_iff, itemKeys]
  cases d.section? "items" <;> simp

end Directive

namespace Canonical

variable {d : Directive} {key : String}

/-- All keys of extensions that a schema directive states in canonical form have their mark. -/
theorem isExtensionKey_of_schema (distinct : d.keys.Nodup)
    (h : key ∈ (schema d).extensionKeys) : isExtensionKey key = true := by
  obtain ⟨members, canonical, hkey⟩ := Directive.mem_extensionKeys.mp h
  rw [(formOf_schema distinct).extensions] at canonical
  obtain ⟨value, -, canonical⟩ := Option.map_eq_some_iff.mp canonical
  exact (marked_of_extensions canonical).keys key hkey

/-- What an array directive says of the array below a key of its own. -/
def ofArray (d : Directive) : Directive :=
  match d.get? "arraySchema" with
  | some (.obj members) => schema members
  | _ => []

/-- The directive joined by what it says below that key. -/
def joined (d : Directive) : Directive :=
  ((ofArray d).filter (·.1 ≠ "implementation")).foldl (fun m e => m.insertNew e.1 e.2)
    (d.erase "arraySchema")

/-- What it says of the items is brought into canonical form. -/
def withItems (d : Directive) : Directive :=
  match d.get? "schema" with
  | some (.obj members) =>
    let items := schema members
    if items.isEmpty then d.erase "schema" else (d.erase "schema").insert "items" (.obj items)
  | _ => d.erase "schema"

theorem arraySchema_eq (d : Directive) : arraySchema d = withItems (joined d) := rfl

theorem nodup_keys_joined (distinct : d.keys.Nodup) : (joined d).keys.Nodup :=
  Assoc.nodup_keys_foldl_insertNew (Assoc.nodup_keys_erase distinct)

theorem get?_joined (distinct : d.keys.Nodup) (array : "arraySchema" ≠ key)
    (implementation : key ≠ "implementation") :
    (joined d).get? key = (d.get? key).or ((ofArray d).get? key) := by
  have kept : Assoc.get? ((ofArray d).filter (·.1 ≠ "implementation")) key = (ofArray d).get? key :=
    Assoc.get?_filter fun _ => decide_eq_true implementation
  rw [joined, Assoc.get?_foldl_insertNew, Assoc.get?_erase_other distinct array, kept]

theorem get?_withItems_other (distinct : d.keys.Nodup) (schema : "schema" ≠ key)
    (items : "items" ≠ key) : (withItems d).get? key = d.get? key := by
  have erased := Assoc.get?_erase_other distinct schema
  unfold withItems
  split
  · dsimp only
    split
    · exact erased
    · exact (Assoc.get?_insert_other _ _ _ _ items).trans erased
  · exact erased

/-- The items are those that are brought into canonical form, or else those that were stated. -/
theorem get?_withItems (distinct : d.keys.Nodup) :
    (withItems d).get? "items" = d.get? "items" ∨
      ∃ members, d.get? "schema" = some (.obj members) ∧
        (withItems d).get? "items" = some (.obj (schema members)) := by
  have erased : (d.erase "schema").get? "items" = d.get? "items" :=
    Assoc.get?_erase_other distinct (by decide)
  unfold withItems
  split
  · rename_i members stated
    dsimp only
    split
    · exact .inl erased
    · exact .inr ⟨members, stated, Assoc.get?_insert_same _ _ _⟩
  · exact .inl erased

/-- What the directive says of the array stands there in canonical form. -/
theorem exists_of_ofArray {value : Json} (h : (ofArray d).get? key = some value) :
    ∃ members : Directive, d.get? "arraySchema" = some (.obj members) ∧
      (schema members).get? key = some value := by
  unfold ofArray at h
  split at h
  · rename_i members stated
    exact ⟨members, stated, h⟩
  · cases h

/-- What stands in a joined directive was said by the directive or of the array. -/
theorem exists_of_joined (distinct : d.keys.Nodup) (array : "arraySchema" ≠ key)
    (implementation : key ≠ "implementation") {value : Json}
    (h : (joined d).get? key = some value) :
    d.get? key = some value ∨ ∃ members : Directive, d.get? "arraySchema" = some (.obj members) ∧
      (schema members).get? key = some value := by
  rw [get?_joined distinct array implementation, Option.or_eq_some_iff] at h
  exact h.imp_right fun inner => exists_of_ofArray inner.2

section

variable (settled : (Json.obj d).IsSettled)

include settled

theorem isSettled_of_get? {value : Json} (stated : d.get? key = some value) : value.IsSettled :=
  settled.of_mem_obj (Assoc.mem_of_get? stated)

/-- What is not a matter of schema directives stands in a joined directive as it was written. -/
theorem isSettled_of_joined (raw : key ∉ rawKeys) (rewritten : key ∉ rewrittenKeys)
    (array : "arraySchema" ≠ key) (implementation : key ≠ "implementation") {value : Json}
    (stated : (joined d).get? key = some value) : value.IsSettled := by
  rcases exists_of_joined settled.distinct array implementation stated with own | below
  · exact isSettled_of_get? settled own
  · obtain ⟨members, written, inner⟩ := below
    have settled' := isSettled_of_get? settled written
    rw [(formOf_schema settled'.distinct).other key raw rewritten] at inner
    exact isSettled_of_get? settled' inner

theorem marked_or_verbatim_of_own (h : key ∈ (arraySchema d).extensionKeys) :
    isExtensionKey key = true ∨ key ∈ d.verbatimKeys := by
  obtain ⟨members, stated, hkey⟩ := Directive.mem_extensionKeys.mp h
  rw [arraySchema_eq, get?_withItems_other (nodup_keys_joined settled.distinct) (by decide)
    (by decide)] at stated
  rcases exists_of_joined settled.distinct (by decide) (by decide) stated with own | below
  · have mem := Directive.mem_extensionKeys.mpr ⟨members, own, hkey⟩
    exact .inr (List.mem_append_left _ (List.mem_append_left _ mem))
  · obtain ⟨array, written, inner⟩ := below
    have mem := Directive.mem_extensionKeys.mpr ⟨members, inner, hkey⟩
    exact .inl (isExtensionKey_of_schema (isSettled_of_get? settled written).distinct mem)

theorem marked_or_verbatim_of_items (h : key ∈ (arraySchema d).itemKeys) :
    isExtensionKey key = true ∨ key ∈ d.verbatimKeys := by
  obtain ⟨items, stated, hkey⟩ := Directive.mem_itemKeys.mp h
  rw [arraySchema_eq] at stated
  rcases get?_withItems (nodup_keys_joined settled.distinct) with same | canonical
  · rw [same] at stated
    rcases exists_of_joined settled.distinct (by decide) (by decide) stated with own | below
    · have mem := Directive.mem_itemKeys.mpr ⟨items, own, hkey⟩
      exact .inr (List.mem_append_left _ (List.mem_append_right _ mem))
    · obtain ⟨array, written, inner⟩ := below
      have distinct := (isSettled_of_get? settled written).distinct
      rw [(formOf_schema distinct).other "items" (by decide) (by decide)] at inner
      have mem := Directive.mem_itemKeys.mpr ⟨items, inner, hkey⟩
      refine .inr (List.mem_append_right _ ?_)
      rw [Directive.section?_eq_some_iff.mpr written]
      exact mem
  · obtain ⟨members, written, canonical⟩ := canonical
    obtain rfl := Json.obj.inj (Option.some.inj (stated.symm.trans canonical))
    have settled' : (Json.obj members).IsSettled :=
      isSettled_of_joined settled (by decide) (by decide) (by decide) (by decide) written
    exact .inl (isExtensionKey_of_schema settled'.distinct hkey)

end

end Canonical

end Schemata
