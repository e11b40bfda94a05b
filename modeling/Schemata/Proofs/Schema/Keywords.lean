import Schemata.Proofs.Schema.Facets
import Schemata.Proofs.Schema.Mapping
import Schemata.Schema.Reader

/-!
# Keywords of documents

A document has a member for each keyword at which its schema says something.  A reader of that
member takes over what was said, or what is left of it, and nothing else.
-/
namespace Schemata

/-- The keywords of the schemas within. -/
def Keyword.ofParts : List Keyword :=
  [.items, .not, .allOf, .oneOf, .anyOf, .properties, .additional]

namespace Schema

/-- A list as a document has it, if there is anything in it. -/
def listed (items : List Json) : Option Json := if items.isEmpty then none else some (.arr items)

/-- What a schema says at a keyword. -/
def written (s : Schema) : Keyword → Option Json
  | .ref => s.ref.map .str
  | .type => s.type.map (.str ·.name)
  | .format => s.facets.format.map .str
  | .title => s.labels.title.map .str
  | .description => s.labels.description.map .str
  | .nullable => s.labels.nullable.map .bool
  | .deprecated => s.labels.deprecated.map .bool
  | .readOnly => s.facets.readOnly.map .bool
  | .writeOnly => s.facets.writeOnly.map .bool
  | .defaultValue => s.facets.defaultValue
  | .exampleValue => s.facets.exampleValue
  | .examples => s.facets.examples.map .arr
  | .enumValues => s.facets.enumValues.map .arr
  | .multipleOf => s.facets.multipleOf.map Double.boundJson
  | .minimum => s.facets.minimum.map Double.boundJson
  | .exclusiveMinimum => s.facets.exclusiveMinimum.map .bool
  | .maximum => s.facets.maximum.map Double.boundJson
  | .exclusiveMaximum => s.facets.exclusiveMaximum.map .bool
  | .minLength => s.facets.minLength.map Json.ofNat
  | .maxLength => s.facets.maxLength.map Json.ofNat
  | .pattern => s.facets.pattern.map .str
  | .items => s.items.map toJson
  | .minItems => s.facets.minItems.map Json.ofNat
  | .maxItems => s.facets.maxItems.map Json.ofNat
  | .uniqueItems => s.facets.uniqueItems.map .bool
  | .properties =>
    if s.properties.isEmpty then none
    else some (.obj (s.properties.map fun p => (p.1, p.2.toJson)))
  | .required => listed (s.required.map .str)
  | .additional => additionalToJson s.additional
  | .minProperties => s.facets.minProperties.map Json.ofNat
  | .maxProperties => s.facets.maxProperties.map Json.ofNat
  | .allOf => listed (s.allOf.map toJson)
  | .oneOf => listed (s.oneOf.map toJson)
  | .anyOf => listed (s.anyOf.map toJson)
  | .not => s.not.map toJson
  | .discriminator => s.facets.discriminator.map Discriminator.toJson
  | .externalDocs => s.labels.externalDocs.map ExternalDocs.toJson

/-- The schema with what another one says at a keyword. -/
def adopt (s other : Schema) : Keyword → Schema
  | .ref => { s with ref := other.ref }
  | .type => { s with type := other.type }
  | .format => { s with facets.format := other.facets.format }
  | .title => { s with labels.title := other.labels.title }
  | .description => { s with labels.description := other.labels.description }
  | .nullable => { s with labels.nullable := other.labels.nullable }
  | .deprecated => { s with labels.deprecated := other.labels.deprecated }
  | .readOnly => { s with facets.readOnly := other.facets.readOnly }
  | .writeOnly => { s with facets.writeOnly := other.facets.writeOnly }
  | .defaultValue => { s with facets.defaultValue := other.facets.defaultValue }
  | .exampleValue => { s with facets.exampleValue := other.facets.exampleValue }
  | .examples => { s with facets.examples := other.facets.examples }
  | .enumValues => { s with facets.enumValues := other.facets.enumValues }
  | .multipleOf => { s with facets.multipleOf := other.facets.multipleOf }
  | .minimum => { s with facets.minimum := other.facets.minimum }
  | .exclusiveMinimum => { s with facets.exclusiveMinimum := other.facets.exclusiveMinimum }
  | .maximum => { s with facets.maximum := other.facets.maximum }
  | .exclusiveMaximum => { s with facets.exclusiveMaximum := other.facets.exclusiveMaximum }
  | .minLength => { s with facets.minLength := other.facets.minLength }
  | .maxLength => { s with facets.maxLength := other.facets.maxLength }
  | .pattern => { s with facets.pattern := other.facets.pattern }
  | .items => { s with items := other.items }
  | .minItems => { s with facets.minItems := other.facets.minItems }
  | .maxItems => { s with facets.maxItems := other.facets.maxItems }
  | .uniqueItems => { s with facets.uniqueItems := other.facets.uniqueItems }
  | .properties => { s with properties := other.properties }
  | .required => { s with required := other.required }
  | .additional => { s with additional := other.additional }
  | .minProperties => { s with facets.minProperties := other.facets.minProperties }
  | .maxProperties => { s with facets.maxProperties := other.facets.maxProperties }
  | .allOf => { s with allOf := other.allOf }
  | .oneOf => { s with oneOf := other.oneOf }
  | .anyOf => { s with anyOf := other.anyOf }
  | .not => { s with not := other.not }
  | .discriminator => { s with facets.discriminator := other.facets.discriminator }
  | .externalDocs => { s with labels.externalDocs := other.labels.externalDocs }

theorem optionToJson_eq_map (s : Option Schema) : optionToJson s = s.map toJson := by
  cases s with
  | none => rw [optionToJson, Option.map_none]
  | some s => rw [optionToJson, Option.map_some]

theorem listToJson_eq_map (list : List Schema) : listToJson list = list.map toJson := by
  induction list with
  | nil => rw [listToJson, List.map_nil]
  | cons s rest ih => rw [listToJson, ih, List.map_cons]

theorem propertiesToJson_eq_map (properties : List (String × Schema)) :
    propertiesToJson properties = properties.map fun p => (p.1, p.2.toJson) := by
  induction properties with
  | nil => rw [propertiesToJson, List.map_nil]
  | cons p rest ih => rw [propertiesToJson, ih, List.map_cons]

theorem listMember_eq (k : Keyword) (items : List Json) :
    listMember k items = member k (listed items) := by
  cases items <;> rfl

/-- A document has the members that its schema writes. -/
theorem toJson_eq (s : Schema) :
    s.toJson =
      .obj (Keyword.all.flatMap (fun k => member k (s.written k)) ++ s.facets.extensions) := by
  have properties : (if s.properties.isEmpty then []
      else [(Keyword.properties.name, Json.obj (s.properties.map fun p => (p.1, p.2.toJson)))]) =
      member .properties (s.written .properties) := by
    rw [written]
    split <;> rfl
  obtain ⟨name, ref, type, labels, facets, items, props, required, additional, allOf, oneOf, anyOf,
    not⟩ := s
  rw [toJson, optionToJson_eq_map, optionToJson_eq_map, listToJson_eq_map, listToJson_eq_map,
    listToJson_eq_map, propertiesToJson_eq_map, listMember_eq, listMember_eq, listMember_eq,
    listMember_eq]
  dsimp only at properties
  rw [properties]
  simp only [Keyword.all, List.flatMap_cons, List.flatMap_nil, List.append_assoc, List.append_nil]
  rfl

/-! ### Reading -/

variable {s t : Schema} {k : Keyword} {value : Json}

theorem readMembers_nil : readMembers [] = some := by
  funext t
  rw [readMembers]

/-- Members are read one after the other. -/
theorem readMembers_cons (member : String × Json) (rest : List (String × Json)) (t : Schema) :
    readMembers (member :: rest) t = (readMembers [member] t).bind (readMembers rest) := by
  obtain ⟨key, value⟩ := member
  rw [readMembers, readMembers, readMembers_nil]
  cases Keyword.ofName? key with
  | none => rfl
  | some k => cases k <;> simp [Option.bind_assoc]

theorem readMembers_append (members more : List (String × Json)) (t : Schema) :
    readMembers (members ++ more) t = (readMembers members t).bind (readMembers more) := by
  induction members generalizing t with
  | nil => rw [List.nil_append, readMembers_nil, Option.bind_some]
  | cons member rest ih =>
    have later : readMembers (rest ++ more) =
        fun t => (readMembers rest t).bind (readMembers more) := funext ih
    rw [List.cons_append, readMembers_cons, readMembers_cons member rest, later, Option.bind_assoc]

/-- A keyword without parts is set. -/
theorem readMembers_leaf (value : Json) (t : Schema) (leaf : k ∉ Keyword.ofParts) :
    readMembers [(k.name, value)] t = setLeaf? t k value := by
  rw [readMembers, Keyword.ofName?_name, readMembers_nil]
  cases k <;> simp [Keyword.ofParts] at leaf ⊢

theorem written_adopt {other : Schema} {k' : Keyword} (h : k ≠ k') :
    (t.adopt other k).written k' = t.written k' := by
  cases k <;> cases k' <;> first | rfl | exact absurd rfl h

/-! ### What is said at a keyword -/

/-- A value that can be read is not null. -/
theorem orNull_of_read {α : Type} {read : Json → Option α} {a : α} (reads : read value = some a)
    (refuses : read .null = none) : orNull read value = some (some a) := by
  unfold orNull
  split
  · cases refuses.symm.trans reads
  · rw [reads, Option.map_some]

theorem unsigned?_ofNat {n : Nat} (fits : n < 2 ^ 64) : Json.unsigned? (.ofNat n) = some n :=
  if_pos fits

/-- Null is taken for nothing. -/
theorem orNull_any? (h : value.IsValue) :
    orNull Json.any? value = some ((some value).filter (!·.isNull)) := by
  cases value with
  | null => rfl
  | _ => exact congrArg (fun v => some (some v)) h.isSettled

theorem readOption_toJson (s : Schema) : readOption s.toJson = (ofJson? s.toJson).map some := by
  rw [toJson_eq, readOption, ofJson?]
  split <;> rfl

theorem readAdditional_toJson (s : Schema) :
    readAdditional s.toJson = (ofJson? s.toJson).map fun s => some (.schema s) := by
  rw [toJson_eq, readAdditional, ofJson?]
  split <;> rfl

theorem readItems_map {list : List Schema} {f : Schema → Schema}
    (each : ∀ s ∈ list, ofJson? s.toJson = some (f s)) :
    readItems (list.map toJson) = some (list.map f) := by
  induction list with
  | nil => rw [List.map_nil, readItems, List.map_nil]
  | cons s rest ih =>
    obtain ⟨first, others⟩ := List.forall_mem_cons.mp each
    rw [List.map_cons, readItems, first, ih others]
    rfl

theorem readNamed_map {properties : List (String × Schema)} {f : Schema → Schema}
    (each : ∀ p ∈ properties, ofJson? p.2.toJson = some (f p.2)) :
    readNamed (properties.map fun p => (p.1, p.2.toJson)) =
      some (properties.map fun p => (p.1, f p.2)) := by
  induction properties with
  | nil => rw [List.map_nil, readNamed, List.map_nil]
  | cons p rest ih =>
    obtain ⟨first, others⟩ := List.forall_mem_cons.mp each
    rw [List.map_cons, readNamed, first, ih others]
    rfl

theorem listed_eq_some_iff {items : List Json} :
    listed items = some value ↔ items ≠ [] ∧ value = .arr items := by
  cases items <;> simp [listed, eq_comm]

theorem readList_of_listed {list : List Schema} {f : Schema → Schema}
    (said : listed (list.map toJson) = some value)
    (each : ∀ s ∈ list, ofJson? s.toJson = some (f s)) : readList value = some (list.map f) := by
  obtain ⟨-, rfl⟩ := listed_eq_some_iff.mp said
  rw [readList, readItems_map each]

theorem readProperties_of_written {f : Schema → Schema} (distinct : (Assoc.keys s.properties).Nodup)
    (said : s.written .properties = some value)
    (each : ∀ p ∈ s.properties, ofJson? p.2.toJson = some (f p.2)) :
    readProperties value = some (s.properties.map fun p => (p.1, f p.2)) := by
  have distinct' : (Assoc.keys (s.properties.map fun p => (p.1, f p.2))).Nodup := by
    rw [Assoc.keys, List.map_map]
    exact distinct
  rw [written] at said
  split at said
  · cases said
  · obtain rfl := Option.some.inj said
    rw [readProperties, readNamed_map each, Option.map_some, Assoc.ofList_of_nodup distinct']

theorem readAdditional_of_written {additional : Option (Additional Schema)} {f : Schema → Schema}
    (said : additionalToJson additional = some value)
    (each : ∀ s, additional = some (.schema s) → ofJson? s.toJson = some (f s)) :
    readAdditional value = some (additional.map (Additional.map f)) := by
  cases additional with
  | none =>
    rw [additionalToJson] at said
    cases said
  | some additional =>
    cases additional with
    | allowed any =>
      rw [additionalToJson] at said
      obtain rfl := Option.some.inj said
      rw [readAdditional]
      rfl
    | schema part =>
      rw [additionalToJson] at said
      obtain rfl := Option.some.inj said
      rw [readAdditional_toJson, each part rfl]
      rfl

theorem discriminator_ofJson?_toJson {d : Discriminator} (distinct : d.mapping.keys.Nodup) :
    Discriminator.ofJson? d.toJson = some d := by
  obtain ⟨propertyName, mapping⟩ := d
  cases mapping with
  | nil => rfl
  | cons pair rest =>
    have texts : ((pair :: rest).map fun pair => (pair.1, Json.str pair.2)).mapM
        (fun member => (Json.str? member.2).map (member.1, ·)) = some (pair :: rest) := by
      rw [List.mapM_map]
      exact (Json.mapM_eq_some fun _ _ => rfl).trans (congrArg some (List.map_id _))
    have reads : Json.map? Json.str?
        (.obj ((pair :: rest).map fun pair => (pair.1, Json.str pair.2))) =
          some (pair :: rest) := by
      rw [Json.map?, texts, Option.map_some, Assoc.ofList_of_nodup distinct]
    have fields : Json.recordFields? ["propertyName", "mapping"]
        (Discriminator.toJson ⟨propertyName, pair :: rest⟩) = some [some (.str propertyName),
          some (.obj ((pair :: rest).map fun pair => (pair.1, Json.str pair.2)))] := rfl
    rw [Discriminator.ofJson?, fields]
    simp only [Option.bind_eq_bind, Option.bind_some, Json.defaulted?, reads]
    rfl

theorem externalDocs_ofJson?_toJson (d : ExternalDocs) :
    ExternalDocs.ofJson? d.toJson = some d := by
  obtain ⟨description, url⟩ := d
  cases description <;> rfl

/-- A schema as a document can say it; what is within is not spoken of. -/
structure IsDocument (s : Schema) : Prop where
  name : s.name = none
  properties : (Assoc.keys s.properties).Nodup
  facets : s.facets.IsDocument

/-- What is said at a keyword without parts is read again. -/
theorem setLeaf?_written (h : s.IsDocument) (leaf : k ∉ Keyword.ofParts)
    (said : s.written k = some value) :
    setLeaf? t k value = some (t.adopt (s.mapFacets Facets.reread) k) := by
  rw [mapFacets_eq]
  cases k with
  | items | not | allOf | oneOf | anyOf | properties | additional => exact absurd (by decide) leaf
  | ref | format | title | description | pattern =>
    obtain ⟨text, same, rfl⟩ := Option.map_eq_some_iff.mp said
    simp only [adopt, Facets.reread, Facets.withoutNulls, same]
    rfl
  | nullable | deprecated | readOnly | writeOnly | exclusiveMinimum | exclusiveMaximum
  | uniqueItems =>
    obtain ⟨flag, same, rfl⟩ := Option.map_eq_some_iff.mp said
    simp only [adopt, Facets.reread, Facets.withoutNulls, same]
    rfl
  | minLength | maxLength | minItems | maxItems | minProperties | maxProperties =>
    obtain ⟨n, same, rfl⟩ := Option.map_eq_some_iff.mp said
    have fits := h.facets.limits n (by simp [Facets.limits, same])
    rw [setLeaf?, orNull_of_read (unsigned?_ofNat fits) rfl]
    simp only [adopt, Facets.reread, Facets.withoutNulls, same]
    rfl
  | multipleOf | minimum | maximum =>
    obtain ⟨x, same, rfl⟩ := Option.map_eq_some_iff.mp said
    have safe := h.facets.bounds x (by simp [Facets.bounds, same])
    rw [setLeaf?, orNull_of_read safe.double?_boundJson rfl]
    simp only [adopt, Facets.reread, same]
    rfl
  | type =>
    obtain ⟨type, same, rfl⟩ := Option.map_eq_some_iff.mp said
    have reads : Json.named? SchemaType.ofName? (.str type.name) = some type :=
      SchemaType.ofName?_name type
    rw [setLeaf?, orNull_of_read reads rfl]
    simp only [adopt, same]
    rfl
  | defaultValue | exampleValue =>
    rw [written] at said
    have isValue := h.facets.literals value (by simp [Facets.literals, said])
    rw [setLeaf?, orNull_any? isValue]
    simp only [adopt, Facets.reread, Facets.withoutNulls, said]
    rfl
  | examples | enumValues =>
    obtain ⟨items, same, rfl⟩ := Option.map_eq_some_iff.mp said
    have each (value : Json) (listed : value ∈ items) : value.IsValue :=
      h.facets.literals value (by simp [Facets.literals, same, listed])
    rw [setLeaf?, orNull_of_read (Json.list?_any? each) rfl]
    simp only [adopt, Facets.reread, Facets.withoutNulls, same]
    rfl
  | required =>
    obtain ⟨-, rfl⟩ := listed_eq_some_iff.mp said
    have reads : Json.list? Json.str? (.arr (s.required.map .str)) = some s.required := by
      rw [Json.list?, List.mapM_map]
      exact (Json.mapM_eq_some fun _ _ => rfl).trans (congrArg some (List.map_id _))
    rw [setLeaf?, reads]
    rfl
  | discriminator =>
    obtain ⟨d, same, rfl⟩ := Option.map_eq_some_iff.mp said
    have reads := discriminator_ofJson?_toJson (h.facets.mapping d same)
    rw [setLeaf?, orNull_of_read reads rfl]
    simp only [adopt, Facets.reread, Facets.withoutNulls, same]
    rfl
  | externalDocs =>
    obtain ⟨d, same, rfl⟩ := Option.map_eq_some_iff.mp said
    rw [setLeaf?, orNull_of_read (externalDocs_ofJson?_toJson d) rfl]
    simp only [adopt, same]
    rfl

/-- What is said at a keyword is read again, as soon as the schemas within are. -/
theorem read_written (h : s.IsDocument)
    (parts : ∀ part ∈ s.parts, ofJson? part.toJson = some (part.mapFacets Facets.reread))
    (said : s.written k = some value) :
    readMembers [(k.name, value)] t = some (t.adopt (s.mapFacets Facets.reread) k) := by
  by_cases leaf : k ∉ Keyword.ofParts
  · rw [readMembers_leaf value t leaf, setLeaf?_written h leaf said]
  · rw [mapFacets_eq, readMembers, Keyword.ofName?_name, readMembers_nil]
    cases k with
    | items | not =>
      obtain ⟨part, same, rfl⟩ := Option.map_eq_some_iff.mp said
      have reads := parts part (mem_parts.mpr (by simp [same]))
      simp only [readOption_toJson, reads, adopt, same]
      rfl
    | allOf | oneOf | anyOf =>
      have reads := readList_of_listed said fun part listed =>
        parts part (mem_parts.mpr (by simp [listed]))
      simp only [reads, adopt]
      rfl
    | properties =>
      have reads := readProperties_of_written h.properties said fun p listed =>
        parts p.2 (mem_parts.mpr (.inr (.inl (List.mem_map_of_mem listed))))
      simp only [reads, adopt]
      rfl
    | additional =>
      have reads := readAdditional_of_written said fun part same =>
        parts part (mem_parts.mpr (by simp [same]))
      simp only [reads, adopt]
      rfl
    | _ => exact absurd (by decide) leaf

theorem listed_eq_none_iff {items : List Json} : listed items = none ↔ items = [] := by
  cases items <;> simp [listed]

theorem additionalToJson_eq_none_iff {additional : Option (Additional Schema)} :
    additionalToJson additional = none ↔ additional = none := by
  cases additional with
  | none => simp [additionalToJson]
  | some additional => cases additional <;> simp [additionalToJson]

theorem adopt_self (t : Schema) (k : Keyword) : t.adopt t k = t := by
  cases t
  cases k <;> rfl

/-- Where neither schema says anything, there is nothing to take over. -/
theorem adopt_of_unwritten {other : Schema} (own : t.written k = none)
    (unsaid : other.written k = none) : t.adopt other k = t := by
  refine Eq.trans ?_ (adopt_self t k)
  cases k with
  | properties =>
    simp only [written, ite_eq_left_iff, reduceCtorEq, imp_false, Decidable.not_not,
      List.isEmpty_iff] at own unsaid
    rw [adopt, adopt, own, unsaid]
  | required | allOf | oneOf | anyOf =>
    simp only [written, listed_eq_none_iff, List.map_eq_nil_iff] at own unsaid
    rw [adopt, adopt, own, unsaid]
  | additional =>
    simp only [written, additionalToJson_eq_none_iff] at own unsaid
    rw [adopt, adopt, own, unsaid]
  | defaultValue | exampleValue =>
    simp only [written] at own unsaid
    rw [adopt, adopt, own, unsaid]
  | _ =>
    simp only [written, Option.map_eq_none_iff] at own unsaid
    rw [adopt, adopt, own, unsaid]

/-- What a schema does not say is not said when it is read again. -/
theorem written_reread (unsaid : s.written k = none) :
    (s.mapFacets Facets.reread).written k = none := by
  rw [mapFacets_eq]
  cases k with
  | properties | required | allOf | oneOf | anyOf =>
    simpa [written, listed_eq_none_iff] using unsaid
  | additional => simpa [written, additionalToJson_eq_none_iff] using unsaid
  | _ => simp_all [written, Facets.reread, Facets.withoutNulls]

end Schema

end Schemata
