import Schemata.Proofs.Directive.Lookups

/-!
# Empty texts in directives

Whatever a directive is asked for, an empty text under a key is no answer, as if there were no such
key.  Canonical form keeps it that way as long as no two keys lead to the same: of two values that
are moved to one place the empty text may be the one that is left.  And two questions are asked in
another way.  Values that are listed as an empty text are taken for a list of none, and further
properties for those of a type that has no name.
-/
namespace Schemata

/-- What stands under a key says nothing. -/
def IsUnset (v : Option Json) : Prop := v = none ∨ v = some (.str "")

/-- The same stands under two keys, or on neither side does it say anything. -/
def Alike (v v' : Option Json) : Prop := v = v' ∨ IsUnset v ∧ IsUnset v'

namespace Alike

variable {v v' w w' : Option Json}

theorem of_eq (h : v = v') : Alike v v' := .inl h

theorem unset : Alike (some (.str "")) none := .inr ⟨.inr rfl, .inl rfl⟩

/-- What takes an empty text for none does not tell them apart. -/
theorem read {α : Type} (h : Alike v v') (f : Option Json → α)
    (untold : f (some (.str "")) = f none) : f v = f v' := by
  have unset {v : Option Json} (h : IsUnset v) : f v = f none := by
    rcases h with rfl | rfl
    · rfl
    · exact untold
  rcases h with rfl | ⟨h, h'⟩
  · rfl
  · rw [unset h, unset h']

/-- What leaves an empty text as it is does not tell them apart either. -/
theorem bind (h : Alike v v') {f : Json → Option Json} (kept : IsUnset (f (.str ""))) :
    Alike (v.bind f) (v'.bind f) := by
  have unset {v : Option Json} (h : IsUnset v) : IsUnset (v.bind f) := by
    rcases h with rfl | rfl
    · exact .inl rfl
    · exact kept
  rcases h with rfl | ⟨h, h'⟩
  · exact of_eq rfl
  · exact .inr ⟨unset h, unset h'⟩

theorem map (h : Alike v v') {f : Json → Json} (kept : f (.str "") = .str "") :
    Alike (v.map f) (v'.map f) := by
  rw [Option.map_eq_bind, Option.map_eq_bind]
  exact h.bind (.inr (congrArg some kept))

theorem or (h : v = v') (h' : Alike w w') : Alike (v.or w) (v'.or w') := by
  subst h
  cases v with
  | none => exact h'
  | some value => exact of_eq rfl

/-- A mode that is named does not come of an empty text. -/
theorem accessed {mode mode' : Option Json} (h : Alike mode mode') (h' : Alike v v')
    {name : String} (named : name ≠ "") :
    Alike (if mode.bind Json.asStr? = some name then some (.bool true) else v)
      (if mode'.bind Json.asStr? = some name then some (.bool true) else v') := by
  have same : (mode.bind Json.asStr? = some name) = (mode'.bind Json.asStr? = some name) :=
    h.read (fun m => m.bind Json.asStr? = some name) (by simp [Json.asStr?, named.symm])
  simp only [same]
  split
  · exact of_eq rfl
  · exact h'

end Alike

/-! ### Questions -/

namespace Directive

variable {d d' : Directive} {key : String} (h : Alike (d.get? key) (d'.get? key))

include h

theorem text?_of_alike : d.text? key = d'.text? key := by
  unfold text?
  generalize d.get? key = v, d'.get? key = v' at h
  apply h.read
  rfl

theorem flag?_of_alike : d.flag? key = d'.flag? key := by
  unfold flag?
  generalize d.get? key = v, d'.get? key = v' at h
  apply h.read
  decide

theorem number?_of_alike : d.number? key = d'.number? key := by
  unfold number?
  generalize d.get? key = v, d'.get? key = v' at h
  apply h.read
  decide

theorem count?_of_alike : d.count? key = d'.count? key := by
  unfold count?
  generalize d.get? key = v, d'.get? key = v' at h
  apply h.read
  decide

theorem texts_of_alike : d.texts key = d'.texts key := by
  unfold texts
  generalize d.get? key = v, d'.get? key = v' at h
  apply h.read
  rfl

theorem section?_of_alike : d.section? key = d'.section? key := by
  unfold section?
  generalize d.get? key = v, d'.get? key = v' at h
  apply h.read
  rfl

end Directive

/-! ### Canonical form -/

namespace Canonical

variable {d d' c c' : Directive}

theorem gathered_of_alike {property property' mapping mapping' : Option Json}
    (h : Alike property property') (h' : Alike mapping mapping') :
    gathered property mapping = gathered property' mapping' :=
  (h.read (fun v => gathered v mapping) rfl).trans (h'.read (fun v => gathered property' v) rfl)

/-- Values that are listed and the default are the only ones to which two keys lead. -/
theorem FormOf.alike (form : FormOf d c) (form' : FormOf d' c')
    (h : ∀ key, key ≠ "enum" → key ≠ "default" → Alike (d.get? key) (d'.get? key))
    (listed : Alike (c.get? "enum") (c'.get? "enum"))
    (defaulted : Alike (c.get? "default") (c'.get? "default")) (key : String) :
    Alike (c.get? key) (c'.get? key) := by
  have rest (key : String) (apart : key ∉ ["enum", "default"]) :
      Alike (d.get? key) (d'.get? key) := by
    simp only [List.mem_cons, List.not_mem_nil, or_false, not_or] at apart
    exact h key apart.1 apart.2
  by_cases raw : key ∈ rawKeys
  · exact .of_eq ((form.raw key raw).trans (form'.raw key raw).symm)
  by_cases rewritten : key ∈ rewrittenKeys
  · simp only [rewrittenKeys, List.mem_cons, List.not_mem_nil, or_false] at rewritten
    rcases rewritten with rfl | rfl | rfl | rfl | rfl | rfl | rfl | rfl | rfl
    · rw [form.reference, form'.reference]
      exact .or ((rest "ref" (by decide)).read
        (fun v => v.bind fun value => (Canonical.reference value).map Prod.snd) rfl)
        (rest "$ref" (by decide))
    · exact defaulted
    · exact listed
    · rw [form.readOnly, form'.readOnly]
      exact (rest _ (by decide)).accessed (rest _ (by decide)) (by decide)
    · rw [form.writeOnly, form'.writeOnly]
      exact (rest _ (by decide)).accessed (rest _ (by decide)) (by decide)
    · rw [form.additional, form'.additional]
      exact (rest _ (by decide)).bind (.inr rfl)
    · rw [form.discriminator, form'.discriminator]
      exact .or (gathered_of_alike (rest _ (by decide)) (rest _ (by decide))) (rest _ (by decide))
    · rw [form.extensions, form'.extensions]
      exact (rest _ (by decide)).map rfl
    · rw [form.exampleValue, form'.exampleValue]
      exact (rest _ (by decide)).map rfl
  · rw [form.other key raw rewritten, form'.other key raw rewritten]
    refine h key ?_ ?_ <;> rintro rfl <;> exact rewritten (by decide)

end Canonical

namespace Directive

/-- Two directives give the same answers. -/
structure SaysAs (d d' : Directive) : Prop where
  alike : ∀ key, Alike (d.get? key) (d'.get? key)
  listed : d.get? "enum" = d'.get? "enum"
  additional : d.get? "additionalProperties" = d'.get? "additionalProperties"

/-- Two directives give the same answers, but for the values that the one lists as an empty text
and the other does not list. -/
structure ListsNone (d d' : Directive) : Prop where
  alike : ∀ key, Alike (d.get? key) (d'.get? key)
  listed : d.get? "enum" = some (.str "")
  unlisted : d'.get? "enum" = none
  additional : d.get? "additionalProperties" = d'.get? "additionalProperties"

/-- Two directives give the same answers, but for further properties, which the one names an empty
type for and the other does not mention. -/
structure NamesNone (d d' : Directive) : Prop where
  alike : ∀ key, Alike (d.get? key) (d'.get? key)
  listed : d.get? "enum" = d'.get? "enum"
  named : d.get? "additionalProperties" = some (.str "")
  unnamed : d'.get? "additionalProperties" = none

/-- An empty text under a key is not taken for none: it stands in the place of listed values or of
a default, or for the name of a type. -/
inductive Heeds (d : Directive) : String → Prop where
  | listed (sole : d.get? "allowableValues" = none) : Heeds d "enum"
  | allowed (other : d.get? "enum" ≠ some (.str "")) : Heeds d "allowableValues"
  | defaulted (other : ¬ IsUnset (d.get? "default")) : Heeds d "defaultValue"
  | additional : Heeds d "additionalProperties"

theorem Heeds.mem {d : Directive} {key : String} (h : d.Heeds key) :
    key ∈ ["enum", "allowableValues", "defaultValue", "additionalProperties"] := by
  cases h <;> decide

end Directive

namespace Canonical

open Directive

variable {d : Directive}

section

variable (distinct : d.keys.Nodup)

include distinct

theorem alike_insert_erase (key other : String) :
    Alike ((d.insert key (.str "")).get? other) ((d.erase key).get? other) := by
  rw [Assoc.get?_insert, Assoc.get?_erase distinct]
  split
  · exact .unset
  · exact .of_eq rfl

theorem get?_insert_eq_erase {key other : String} (apart : key ≠ other) :
    (d.insert key (.str "")).get? other = (d.erase key).get? other := by
  rw [Assoc.get?_insert, Assoc.get?_erase distinct, if_neg apart, if_neg apart]

theorem enumeration_of_not_heeds {key : String} (h : ¬ d.Heeds key) :
    (schema (d.insert key (.str ""))).get? "enum" = (schema (d.erase key)).get? "enum" := by
  have form := formOf_schema (Assoc.nodup_keys_insert d key (.str "") distinct)
  have form' := formOf_schema (Assoc.nodup_keys_erase distinct : (d.erase key).keys.Nodup)
  rw [form.enumeration, form'.enumeration]
  by_cases allowed : key = "allowableValues"
  · subst allowed
    have empty : d.get? "enum" = some (.str "") :=
      Classical.byContradiction fun other => h (.allowed other)
    simp [Assoc.get?_insert, Assoc.get?_erase distinct, empty]
  rw [get?_insert_eq_erase distinct allowed]
  by_cases own : key = "enum"
  · subst own
    cases stated : d.get? "allowableValues" with
    | none => exact absurd (.listed stated) h
    | some values => simp [Assoc.get?_erase distinct, stated]
  rw [get?_insert_eq_erase distinct own]

theorem default_of_not_heeds {key : String} (h : ¬ d.Heeds key) :
    Alike ((schema (d.insert key (.str ""))).get? "default")
      ((schema (d.erase key)).get? "default") := by
  have form := formOf_schema (Assoc.nodup_keys_insert d key (.str "") distinct)
  have form' := formOf_schema (Assoc.nodup_keys_erase distinct : (d.erase key).keys.Nodup)
  rw [form.defaultValue, form'.defaultValue]
  refine Alike.map ?_ rfl
  by_cases defaulted : key = "defaultValue"
  · subst defaulted
    have unset : IsUnset (d.get? "default") :=
      Classical.byContradiction fun other => h (.defaulted other)
    simp only [Assoc.get?_insert, Assoc.get?_erase distinct]
    exact .inr ⟨.inr rfl, unset⟩
  · exact .or (get?_insert_eq_erase distinct defaulted) (alike_insert_erase distinct key _)

/-- An empty text that is not heeded says what its absence says. -/
theorem saysAs_of_not_heeds {key : String} (h : ¬ d.Heeds key) :
    SaysAs (schema (d.insert key (.str ""))) (schema (d.erase key)) := by
  have form := formOf_schema (Assoc.nodup_keys_insert d key (.str "") distinct)
  have form' := formOf_schema (Assoc.nodup_keys_erase distinct : (d.erase key).keys.Nodup)
  have listed := enumeration_of_not_heeds distinct h
  have other : key ≠ "additionalProperties" := by
    rintro rfl
    exact h .additional
  exact {
    alike := form.alike form' (fun other _ _ => alike_insert_erase distinct key other)
      (.of_eq listed) (default_of_not_heeds distinct h)
    listed := listed
    additional := by
      rw [form.additional, form'.additional, get?_insert_eq_erase distinct other] }

theorem get?_erase_erase (first second other : String) :
    ((d.erase first).erase second).get? other =
      if second = other then none else if first = other then none else d.get? other := by
  rw [Assoc.get?_erase (Assoc.nodup_keys_erase distinct), Assoc.get?_erase distinct]

/-- An empty text lists no values, and others are not left beside it. -/
theorem listsNone_of_heeds {key : String} (h : d.Heeds key)
    (values : key = "enum" ∨ key = "allowableValues") :
    ListsNone (schema (d.insert key (.str "")))
      (schema ((d.erase "allowableValues").erase "enum")) := by
  have form := formOf_schema (Assoc.nodup_keys_insert d key (.str "") distinct)
  have form' := formOf_schema (Assoc.nodup_keys_erase (Assoc.nodup_keys_erase distinct) :
    ((d.erase "allowableValues").erase "enum").keys.Nodup)
  have rest := get?_erase_erase distinct "allowableValues" "enum"
  have apart {other : String} (values' : other ∉ ["enum", "allowableValues"]) :
      (d.insert key (.str "")).get? other =
        ((d.erase "allowableValues").erase "enum").get? other := by
    simp only [List.mem_cons, List.not_mem_nil, or_false, not_or] at values'
    have different : key ≠ other := by
      rintro rfl
      exact values.elim values'.1 values'.2
    rw [rest, Assoc.get?_insert, if_neg different, if_neg (Ne.symm values'.1),
      if_neg (Ne.symm values'.2)]
  have listed : (schema (d.insert key (.str ""))).get? "enum" = some (.str "") := by
    rw [form.enumeration]
    cases h with
    | listed sole => simp [Assoc.get?_insert, sole]
    | allowed other => simp [Assoc.get?_insert]
    | defaulted | additional => simp at values
  have unlisted : (schema ((d.erase "allowableValues").erase "enum")).get? "enum" = none := by
    rw [form'.enumeration, rest, rest]
    rfl
  have default : (schema (d.insert key (.str ""))).get? "default" =
      (schema ((d.erase "allowableValues").erase "enum")).get? "default" := by
    rw [form.defaultValue, form'.defaultValue, apart (by decide), apart (by decide)]
  refine ⟨form.alike form' ?_ ?_ (.of_eq default), listed, unlisted, ?_⟩
  · intro other own _
    by_cases allowed : other = "allowableValues"
    · rw [allowed, rest]
      cases h with
      | listed sole => simp [Assoc.get?_insert, sole, Alike]
      | allowed other => simp [Alike, IsUnset]
      | defaulted | additional => simp at values
    · exact .of_eq (apart (by simp [own, allowed]))
  · rw [listed, unlisted]
    exact .unset
  · rw [form.additional, form'.additional, apart (by decide)]

/-- An empty text is no default, and another is not left beside it. -/
theorem saysAs_of_defaultValue :
    SaysAs (schema (d.insert "defaultValue" (.str "")))
      (schema ((d.erase "defaultValue").erase "default")) := by
  have form := formOf_schema (Assoc.nodup_keys_insert d "defaultValue" (.str "") distinct)
  have form' := formOf_schema (Assoc.nodup_keys_erase (Assoc.nodup_keys_erase distinct) :
    ((d.erase "defaultValue").erase "default").keys.Nodup)
  have rest := get?_erase_erase distinct "defaultValue" "default"
  have listed : (schema (d.insert "defaultValue" (.str ""))).get? "enum" =
      (schema ((d.erase "defaultValue").erase "default")).get? "enum" := by
    rw [form.enumeration, form'.enumeration, rest, rest]
    simp [Assoc.get?_insert]
  refine ⟨form.alike form' ?_ (.of_eq listed) ?_, listed, ?_⟩
  · intro other _ own
    rw [rest, Assoc.get?_insert, if_neg (Ne.symm own)]
    split
    · exact .unset
    · exact .of_eq rfl
  · rw [form.defaultValue, form'.defaultValue, rest, rest]
    simp [Assoc.get?_insert, Alike, IsUnset, structured]
  · rw [form.additional, form'.additional, rest]
    simp [Assoc.get?_insert]

/-- Further properties are named an empty type for. -/
theorem namesNone_of_additional :
    NamesNone (schema (d.insert "additionalProperties" (.str "")))
      (schema (d.erase "additionalProperties")) := by
  have form := formOf_schema (Assoc.nodup_keys_insert d "additionalProperties" (.str "") distinct)
  have form' := formOf_schema
    (Assoc.nodup_keys_erase distinct : (d.erase "additionalProperties").keys.Nodup)
  have kept {other : String} (apart : "additionalProperties" ≠ other) :=
    get?_insert_eq_erase distinct apart
  have listed : (schema (d.insert "additionalProperties" (.str ""))).get? "enum" =
      (schema (d.erase "additionalProperties")).get? "enum" := by
    rw [form.enumeration, form'.enumeration, kept (by decide), kept (by decide)]
  have default : (schema (d.insert "additionalProperties" (.str ""))).get? "default" =
      (schema (d.erase "additionalProperties")).get? "default" := by
    rw [form.defaultValue, form'.defaultValue, kept (by decide), kept (by decide)]
  refine ⟨form.alike form' (fun other _ _ => alike_insert_erase distinct _ other) (.of_eq listed)
    (.of_eq default), listed, ?_, ?_⟩
  · rw [form.additional, Assoc.get?_insert, if_pos rfl]
    rfl
  · rw [form'.additional, Assoc.get?_erase distinct, if_pos rfl, Option.bind_none]

end

end Canonical

end Schemata
