import Mathlib.Data.List.Nodup
import Schemata.Proofs.Schema.Keywords

/-!
# Schemas are read as they were written

The members of a document are read one after the other, first the keywords and then the extensions.
So every schema can be read from its document, and nothing is lost of it but defaults and examples
that are null.
-/
namespace Schemata

namespace Schema

variable {s t : Schema} {k : Keyword}

theorem read_member (h : s.IsDocument)
    (parts : ∀ part ∈ s.parts, ofJson? part.toJson = some (part.mapFacets Facets.reread))
    (own : t.written k = none) :
    readMembers (member k (s.written k)) t = some (t.adopt (s.mapFacets Facets.reread) k) := by
  cases said : s.written k with
  | none =>
    rw [adopt_of_unwritten own (written_reread said)]
    exact congrFun readMembers_nil t
  | some value => exact read_written h parts said

/-- The members of different keywords are read, where nothing is said at any of them yet. -/
theorem read_keywords (h : s.IsDocument)
    (parts : ∀ part ∈ s.parts, ofJson? part.toJson = some (part.mapFacets Facets.reread))
    {keywords : List Keyword} (distinct : keywords.Nodup)
    (fresh : ∀ k ∈ keywords, t.written k = none) :
    readMembers (keywords.flatMap fun k => member k (s.written k)) t =
      some (keywords.foldl (fun t k => t.adopt (s.mapFacets Facets.reread) k) t) := by
  -- what is read at the first keyword says nothing at the others
  induction keywords generalizing t with
  | nil => exact congrFun readMembers_nil t
  | cons k rest ih =>
    obtain ⟨new, distinct⟩ := List.nodup_cons.mp distinct
    obtain ⟨own, later⟩ := List.forall_mem_cons.mp fresh
    have still (k' : Keyword) (hk' : k' ∈ rest) :
        (t.adopt (s.mapFacets Facets.reread) k).written k' = none := by
      rw [written_adopt (by rintro rfl; exact new hk')]
      exact later k' hk'
    rw [List.flatMap_cons, readMembers_append, read_member h parts own, Option.bind_some,
      ih distinct still, List.foldl_cons]

/-- All keywords together are all of a schema but its name and its extensions. -/
theorem adopt_all (other : Schema) : Keyword.all.foldl (fun t k => t.adopt other k) ({} : Schema) =
    { other with name := none, facets.extensions := [] } := by
  simp only [Keyword.all, List.foldl_cons, List.foldl_nil, adopt]

theorem ofName?_of_prefixed {key : String} (h : "x-".toList <+: key.toList) :
    Keyword.ofName? key = none := by
  refine List.find?_eq_none.mpr fun k _ same => ?_
  obtain rfl := of_decide_eq_true same
  revert h
  cases k <;> decide

/-- Extensions are inserted one after the other. -/
theorem read_extensions {extensions : Assoc String Json}
    (prefixed : ∀ key ∈ extensions.keys, "x-".toList <+: key.toList)
    (values : ∀ pair ∈ extensions, pair.2.IsValue) :
    readMembers extensions t = some { t with
      facets.extensions :=
        extensions.foldl (fun m pair => Assoc.insert m pair.1 pair.2) t.facets.extensions } := by
  induction extensions generalizing t with
  | nil =>
    rw [readMembers_nil]
    cases t
    rfl
  | cons pair rest ih =>
    obtain ⟨first, others⟩ := List.forall_mem_cons.mp values
    obtain ⟨free, later⟩ := List.forall_mem_cons.mp prefixed
    have settled : pair.2.settle = pair.2 := first.isSettled
    rw [readMembers_cons, readMembers, ofName?_of_prefixed free, readMembers_nil, settled]
    exact ih later others

theorem keys_members_sublist (s : Schema) (keywords : List Keyword) :
    (Assoc.keys (keywords.flatMap fun k => member k (s.written k))).Sublist
      (keywords.map Keyword.name) := by
  induction keywords with
  | nil => exact .slnil
  | cons k rest ih =>
    rw [List.flatMap_cons, List.map_cons, Assoc.keys, List.map_append, ← List.singleton_append]
    refine .append ?_ ih
    cases s.written k with
    | none => exact List.nil_sublist _
    | some value => exact .refl _

/-- No keyword stands twice in a document. -/
theorem repeatsKeyword_toJson (h : s.IsDocument) :
    repeatsKeyword (Keyword.all.flatMap (fun k => member k (s.written k)) ++ s.facets.extensions) =
      false := by
  have distinct : (Keyword.all.map Keyword.name).Nodup := by decide
  rw [repeatsKeyword, Bool.not_eq_false', Json.fieldsOnce, List.all_eq_true]
  intro field hfield
  obtain ⟨k, -, rfl⟩ := List.mem_map.mp hfield
  have once := (keys_members_sublist s Keyword.all).count_le k.name
  have atMost := List.nodup_iff_count_le_one.mp distinct k.name
  have absent : k.name ∉ s.facets.extensions.keys := fun listed => by
    have none := ofName?_of_prefixed (h.facets.prefixed _ listed)
    rw [Keyword.ofName?_name] at none
    cases none
  have counted (members : List (String × Json)) :
      members.countP (·.1 = k.name) = (Assoc.keys members).count k.name := by
    rw [Assoc.keys, List.count, List.countP_map]
    rfl
  rw [decide_eq_true_eq, counted, Assoc.keys, List.map_append, List.count_append]
  rw [← List.count_eq_zero] at absent
  exact (Nat.add_le_add (once.trans atMost) absent.le).trans le_rfl

/-- A schema is read as it was written, but for its numbers and nulls. -/
theorem ofJson?_toJson_eq (h : Everywhere IsDocument s) :
    ofJson? s.toJson = some (s.mapFacets Facets.reread) := by
  induction s using parts_induction with
  | step s ih =>
    obtain ⟨own, below⟩ := everywhere_iff.mp h
    have parts (part : Schema) (hp : part ∈ s.parts) := ih part hp (below part hp)
    have distinct : Keyword.all.Nodup := by decide
    have fresh (k : Keyword) (_ : k ∈ Keyword.all) : ({} : Schema).written k = none := by
      cases k <;> rfl
    have keywords := read_keywords own parts distinct fresh
    rw [toJson_eq, ofJson?, repeatsKeyword_toJson own, if_neg Bool.false_ne_true,
      readMembers_append, keywords, adopt_all, Option.bind_some,
      read_extensions own.facets.prefixed own.facets.extension, mapFacets_eq, own.name]
    have extensions := Assoc.ofList_of_nodup own.facets.extensions
    rw [Assoc.ofList] at extensions
    dsimp only
    rw [extensions]
    rfl

/-! ### What survives -/

/-- The document of a schema is read as an equal schema. -/
def Survives (s : Schema) : Prop := ∃ t, ofJson? s.toJson = some t ∧ s.eqv t = true

/-- Nothing within has a default or an example that is null. -/
def IsNullFree (s : Schema) : Prop := Everywhere (fun inner => inner.facets.IsNullFree) s

/-- A document can always be read.  What is read equals what was written but for defaults and
examples that are null, which are gone; so a schema survives exactly when it has none. -/
theorem survives_iff (h : Everywhere IsDocument s) :
    (∃ t, ofJson? s.toJson = some t ∧ (s.mapFacets Facets.withoutNulls).eqv t = true) ∧
      (s.Survives ↔ s.IsNullFree) := by
  have distinct : Everywhere (fun inner => (Assoc.keys inner.properties).Nodup) s :=
    fun inner inside => (h inner inside).properties
  have read := ofJson?_toJson_eq h
  refine ⟨⟨_, read, ?_⟩, ?_⟩
  · exact (eqv_mapFacets_iff distinct).mpr fun inner inside =>
      Facets.eqv_reread (h inner inside).facets
  · have same : s.eqv (s.mapFacets Facets.reread) = true ↔ s.IsNullFree := by
      have equal := eqv_mapFacets_iff (f := id) (g := Facets.reread) distinct
      rw [mapFacets_id] at equal
      exact equal.trans (forall₂_congr fun inner inside =>
        Facets.eqv_reread_iff (h inner inside).facets)
    rw [← same, Survives]
    constructor
    · rintro ⟨t, found, equal⟩
      obtain rfl := Option.some.inj (read.symm.trans found)
      exact equal
    · exact fun equal => ⟨_, read, equal⟩

/-- A note that may be left out, which is written as null. -/
def emptyNote : Schema := { type := some .null, facets.defaultValue := some .null }

theorem isDocument_emptyNote : emptyNote.facets.IsDocument where
  bounds x hx := by cases hx
  limits n hn := by cases hn
  literals value hv := by
    obtain rfl := List.mem_singleton.mp hv
    exact .null
  mapping d hd := by cases hd
  extensions := by decide
  prefixed := by decide

theorem everywhere_isDocument_emptyNote : Everywhere IsDocument emptyNote :=
  everywhere_iff.mpr ⟨⟨rfl, by decide, isDocument_emptyNote⟩, fun _ h => by cases h⟩

/-- A number of pieces, at least one. -/
def pieces : Schema where
  type := some .integer
  facets := { minimum := some (Double.ofNat 1), extensions := [("x-unit", .str "piece")] }

theorem isDocument_pieces : pieces.facets.IsDocument where
  bounds x hx := by
    obtain rfl := List.mem_singleton.mp hx
    exact ⟨1, by decide, by decide⟩
  limits n hn := by cases hn
  literals value hv := by
    obtain rfl := List.mem_singleton.mp hv
    exact .str _
  mapping d hd := by cases hd
  extensions := by decide
  prefixed := by decide

/-- An order of so many pieces, with a note. -/
def noted : Schema where
  type := some .object
  properties := [("count", pieces), ("note", emptyNote)]
  required := ["count"]

theorem everywhere_isDocument_noted : Everywhere IsDocument noted := by
  have none : Facets.IsDocument {} := by
    constructor <;> simp [Facets.bounds, Facets.limits, Facets.literals, Assoc.keys]
  have count : Everywhere IsDocument pieces :=
    everywhere_iff.mpr ⟨⟨rfl, by decide, isDocument_pieces⟩, fun _ h => by cases h⟩
  refine everywhere_iff.mpr ⟨⟨rfl, by decide, none⟩, List.forall_mem_cons.mpr ⟨count, ?_⟩⟩
  exact List.forall_mem_singleton.mpr everywhere_isDocument_emptyNote

theorem survives_iff_noted : Everywhere IsDocument noted ∧
    (∃ t, ofJson? noted.toJson = some t ∧
      (noted.mapFacets Facets.withoutNulls).eqv t = true) ∧
      (noted.Survives ↔ noted.IsNullFree) :=
  ⟨everywhere_isDocument_noted, survives_iff everywhere_isDocument_noted⟩

/-- A default that is null is written, but not read. -/
theorem not_survives_emptyNote : Everywhere IsDocument emptyNote ∧ ¬ emptyNote.Survives := by
  have lost : (ofJson? emptyNote.toJson).any (emptyNote.eqv ·) = false := by decide +kernel
  refine ⟨everywhere_isDocument_emptyNote, ?_⟩
  rintro ⟨t, read, equal⟩
  rw [read] at lost
  exact absurd (equal.symm.trans lost) (by decide)

end Schema

end Schemata
