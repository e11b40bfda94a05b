import Schemata.Pass.Occurrence
import Schemata.Proofs.Schema.Collection

/-!
# References inside schemas

A schema refers into a set of names when every reference at any depth points to one of them.
What a pass does to a schema keeps its reference and adds parts, so that it refers to no more
names than the schema and the new parts do.
-/
namespace Schemata

namespace Schema

/-- The schemas directly below a schema. -/
def parts (s : Schema) : List Schema :=
  s.items.toList ++ s.properties.map Prod.snd
    ++ (match s.additional with
      | some (.schema value) => [value]
      | _ => [])
    ++ s.allOf ++ s.oneOf ++ s.anyOf ++ s.not.toList

/-- A schema is within itself and within whatever it is below, at any depth. -/
inductive Within (s : Schema) : Schema → Prop where
  | self : Within s s
  | part {part whole : Schema} (inside : Within s part) (direct : part ∈ whole.parts) :
      Within s whole

/-- A condition on a schema and on all that is within it. -/
def Everywhere (N : Schema → Prop) (s : Schema) : Prop := ∀ inner, Within inner s → N inner

/-- Every reference within the schema points to a component whose name is in the set. -/
def RefersInto (K : String → Prop) (s : Schema) : Prop :=
  ∀ inner, Within inner s → ∀ path, inner.ref = some path →
    ∃ name, path = componentsPath ++ name ∧ K name

theorem mem_parts {s part : Schema} : part ∈ s.parts ↔
    s.items = some part ∨ part ∈ s.properties.map Prod.snd ∨
      s.additional = some (.schema part) ∨ part ∈ s.allOf ∨ part ∈ s.oneOf ∨ part ∈ s.anyOf ∨
        s.not = some part := by
  have hadditional : part ∈ (match s.additional with
      | some (.schema value) => [value]
      | _ => []) ↔ s.additional = some (.schema part) := by
    split
    · rename_i value h
      rw [h, List.mem_singleton, Option.some.injEq, Additional.schema.injEq]
      exact eq_comm
    · rename_i h
      constructor
      · intro hmem
        cases hmem
      · intro hsome
        exact absurd hsome (h part)
  simp only [parts, List.mem_append, Option.mem_toList, hadditional, or_assoc]

variable {N : Schema → Prop} {K : String → Prop} {s t part : Schema}

theorem everywhere_iff : Everywhere N s ↔ N s ∧ ∀ part ∈ s.parts, Everywhere N part := by
  constructor
  · intro h
    exact ⟨h s .self, fun part direct inner inside => h inner (.part inside direct)⟩
  · rintro ⟨own, below⟩ inner inside
    cases inside with
    | self => exact own
    | part inside direct => exact below _ direct inner inside

theorem refersInto_iff : RefersInto K s ↔
    (∀ path, s.ref = some path → ∃ name, path = componentsPath ++ name ∧ K name) ∧
      ∀ part ∈ s.parts, RefersInto K part :=
  everywhere_iff

theorem mem_values_insert {m : Assoc String Schema} {name : String} {value other : Schema}
    (h : other ∈ (m.insert name value).map Prod.snd) : other ∈ m.map Prod.snd ∨ other = value := by
  induction m with
  | nil => simpa [Assoc.insert] using h
  | cons pair rest ih =>
    simp only [Assoc.insert] at h
    split at h
    · simp only [List.map_cons, List.mem_cons] at h ⊢
      rcases h with rfl | later
      · exact .inr rfl
      · exact .inl (.inr later)
    · simp only [List.map_cons, List.mem_cons] at h ⊢
      rcases h with rfl | later
      · exact .inl (.inl rfl)
      · rcases ih later with old | new
        · exact .inl (.inr old)
        · exact .inr new

/-! ### What changes add -/

theorem mem_parts_addAllOf {other : Schema} (h : other ∈ (s.addAllOf part).parts) :
    other ∈ s.parts ∨ other = part := by
  rw [mem_parts] at h ⊢
  have composed := @mem_pushNew s.allOf part other
  simp only [Schema.addAllOf] at h
  grind

theorem mem_parts_addProperty {name : String} {required : Bool} {other : Schema}
    (h : other ∈ (s.addProperty name part required).parts) : other ∈ s.parts ∨ other = part := by
  rw [mem_parts] at h ⊢
  have properties := @mem_values_insert s.properties name part other
  simp only [Schema.addProperty] at h
  grind

/-- The part that own properties move into. -/
def ownPart (s : Schema) : Schema :=
  { Schema.object with properties := s.properties, required := s.required }

theorem mem_parts_of_ownPart {other : Schema} (h : other ∈ s.ownPart.parts) : other ∈ s.parts := by
  refine mem_parts.mpr (.inr (.inl ?_))
  simpa [parts, ownPart, Schema.object, Schema.typed] using h

theorem mem_parts_settled {other : Schema} (h : other ∈ s.settled.parts) :
    other ∈ s.parts ∨ other = s.ownPart := by
  unfold Schema.settled at h
  split at h
  · exact .inl h
  · split at h
    · exact .inl h
    · rw [mem_parts] at h ⊢
      simp only [List.map_nil, List.not_mem_nil, List.mem_append, List.mem_singleton] at h
      rw [ownPart]
      grind

namespace RefersInto

theorem mono {K' : String → Prop} (h : RefersInto K s) (hsub : ∀ name, K name → K' name) :
    RefersInto K' s := by
  intro inner inside path hpath
  obtain ⟨name, hname, hK⟩ := h inner inside path hpath
  exact ⟨name, hname, hsub name hK⟩

theorem of_mem_parts (h : RefersInto K s) (hmem : part ∈ s.parts) : RefersInto K part :=
  (refersInto_iff.mp h).2 part hmem

theorem of_refName? {name : String} (h : RefersInto K s) (hname : s.refName? = some name) :
    K name := by
  obtain ⟨path, hpath, _⟩ := Option.bind_eq_some_iff.mp hname
  obtain ⟨pointed, rfl, known⟩ := (refersInto_iff.mp h).1 path hpath
  have points : s.refName? = some pointed := by
    rw [← refName?_reference pointed, refName?, refName?, hpath, Schema.reference]
  rwa [← Option.some.inj (points.symm.trans hname)]

/-- A change that keeps the reference and whose new parts are known to refer into the set. -/
theorem of_parts (h : RefersInto K s) (href : t.ref = s.ref)
    (hparts : ∀ part ∈ t.parts, part ∈ s.parts ∨ RefersInto K part) : RefersInto K t := by
  rw [refersInto_iff, href]
  refine ⟨(refersInto_iff.mp h).1, fun part hpart => ?_⟩
  rcases hparts part hpart with old | new
  · exact h.of_mem_parts old
  · exact new

/-- A change of labels, of facets, of the type or of required names alone. -/
theorem of_same (h : RefersInto K s) (href : t.ref = s.ref) (hparts : t.parts = s.parts) :
    RefersInto K t :=
  h.of_parts href fun _ hpart => .inl (hparts ▸ hpart)

/-- A schema without a reference refers where its parts do. -/
theorem of_inline (href : s.ref = none) (hparts : ∀ part ∈ s.parts, RefersInto K part) :
    RefersInto K s := by
  rw [refersInto_iff, href]
  exact ⟨fun path hpath => (by cases hpath), hparts⟩

theorem of_leaf (href : s.ref = none) (hparts : s.parts = []) : RefersInto K s := by
  refine of_inline href fun part hpart => ?_
  rw [hparts] at hpart
  cases hpart

theorem empty : RefersInto K {} := of_leaf rfl rfl

theorem reference {name : String} (h : K name) : RefersInto K (Schema.reference name) := by
  rw [refersInto_iff]
  refine ⟨fun path hpath => ⟨name, ?_, h⟩, fun _ hpart => by cases hpart⟩
  exact (Option.some.inj hpath).symm

theorem array (h : RefersInto K s) : RefersInto K (Schema.array s) := by
  refine of_inline rfl fun part hpart => ?_
  have same : part = s := List.mem_singleton.mp hpart
  exact same ▸ h

theorem setNullable (h : RefersInto K s) : RefersInto K s.setNullable := h.of_same rfl rfl

theorem nullableIf (h : RefersInto K s) (nullable : Bool) :
    RefersInto K (s.nullableIf nullable) := by
  cases nullable
  · exact h
  · exact h.setNullable

theorem addAllOf (h : RefersInto K s) (hpart : RefersInto K part) :
    RefersInto K (s.addAllOf part) := by
  refine h.of_parts rfl fun other hother => (mem_parts_addAllOf hother).imp_right ?_
  rintro rfl
  exact hpart

theorem of_mem_ofList {entries : List (String × Schema)}
    (h : ∀ entry ∈ entries, RefersInto K entry.2) :
    ∀ part ∈ (Assoc.ofList entries).map Prod.snd, RefersInto K part := by
  intro part hpart
  obtain ⟨entry, hentry, rfl⟩ := List.mem_map.mp hpart
  exact h entry (Assoc.mem_of_mem_ofList hentry)

theorem addProperty (h : RefersInto K s) (name : String) (hvalue : RefersInto K part)
    (required : Bool) : RefersInto K (s.addProperty name part required) := by
  refine h.of_parts rfl fun other hother => (mem_parts_addProperty hother).imp_right ?_
  rintro rfl
  exact hvalue

/-- The properties of a part keep their references when they move into a part of their own. -/
theorem settled (h : RefersInto K s) : RefersInto K s.settled := by
  have ref : s.settled.ref = s.ref := by
    rcases exists_settled s with same | ⟨_, _, _, same⟩ <;> rw [same]
  refine h.of_parts ref fun other hother => (mem_parts_settled hother).imp_right ?_
  rintro rfl
  exact of_inline rfl fun part hpart => h.of_mem_parts (mem_parts_of_ownPart hpart)

theorem describedBy (h : RefersInto K s) (element : Option Element) :
    RefersInto K (Compiler.describedBy element s) := by
  unfold Compiler.describedBy
  split
  · exact h.of_same rfl rfl
  · exact h

theorem streamed (h : RefersInto K s) (config : Config) (scope : Scope) (isStream : Bool) :
    RefersInto K (Compiler.streamed config scope isStream s) := by
  unfold Compiler.streamed
  split
  · exact h.array
  · exact h

theorem used (h : RefersInto K s) (target : ConstraintTarget) (ds : Directives) :
    RefersInto K (s.used target ds) := by
  have constrained : RefersInto K (s.constrained target ds) := h.of_same rfl rfl
  unfold Schema.used
  split
  · exact constrained.setNullable
  · exact constrained

theorem usedReference (h : RefersInto K s) (target : ConstraintTarget) (ds : Directives) :
    RefersInto K (Compiler.usedReference s target ds) := by
  simp only [Compiler.usedReference]
  split
  · exact h
  · refine of_inline rfl fun part hpart => ?_
    have hcases : part = s ∨ part = ({} : Schema).used target ds := by
      simpa [mem_parts] using hpart
    rcases hcases with rfl | rfl
    · exact h
    · exact empty.used target ds

theorem withUse (h : RefersInto K s) (u : Universe) (arg : TypeRef) :
    RefersInto K (Compiler.withUse u arg s) := by
  unfold Compiler.withUse
  split
  · exact h
  · dsimp only
    split
    · exact h.usedReference _ _
    · exact h.used _ _

theorem documented (h : RefersInto K s) (d : Decl) : RefersInto K (d.documented s) :=
  h.of_same rfl rfl

theorem definedReference {name : String} (h : K name) (d : Decl) (s : Schema) :
    RefersInto K (d.definedReference name s) := by
  unfold Decl.definedReference
  split
  · exact (reference h).of_same rfl rfl
  · exact reference h

theorem completed (h : RefersInto K s) (u : Universe) (t : TypeRef) :
    RefersInto K (s.completed u t) := by
  unfold Schema.completed
  split
  · exact h.of_same rfl rfl
  · exact h

/-- Laying an overlay over a reference refers to no more than both do. -/
theorem compose (h : RefersInto K t) (hs : RefersInto K s) (e : Element) (nullable : Bool) :
    RefersInto K (t.compose s e nullable) := by
  unfold Schema.compose
  split
  · exact h.nullableIf nullable
  · refine of_inline rfl fun part hpart => ?_
    have hcases : part = t ∨ part = s.innerPart := by
      simpa [mem_parts] using hpart
    rcases hcases with rfl | rfl
    · exact h
    · exact hs.of_same rfl rfl

theorem primitive (p : Primitive) : RefersInto K p.schema := of_leaf rfl rfl

theorem outer {found : Resolved} (h : RefersInto K found.schema) : RefersInto K found.outer := by
  unfold Resolved.outer
  split
  · exact h.setNullable
  · exact h

theorem withAdditional (h : RefersInto K s) (hvalue : RefersInto K t) :
    RefersInto K { s with additional := some (.schema t) } := by
  refine h.of_parts rfl fun other hother => ?_
  rw [mem_parts] at hother ⊢
  simp only [Option.some.injEq, Additional.schema.injEq] at hother
  grind

theorem withoutAdditional (h : RefersInto K s) (any : Bool) :
    RefersInto K { s with additional := some (.allowed any) } := by
  refine h.of_parts rfl fun other hother => ?_
  rw [mem_parts] at hother ⊢
  simp only [Option.some.injEq, reduceCtorEq, false_or] at hother
  grind

theorem withNot (h : RefersInto K s) {found : Option Schema}
    (hfound : ∀ t, found = some t → RefersInto K t) :
    RefersInto K { s with not := found.or s.not } := by
  refine h.of_parts rfl fun other hother => ?_
  rw [mem_parts] at hother ⊢
  simp only [Option.or_eq_some_iff] at hother
  have hother' := hfound other
  grind

theorem withItems (h : RefersInto K s) {found : Option Schema}
    (hfound : ∀ t, found = some t → RefersInto K t) :
    RefersInto K { s with items := found.or s.items } := by
  refine h.of_parts rfl fun other hother => ?_
  rw [mem_parts] at hother ⊢
  simp only [Option.or_eq_some_iff] at hother
  have hother' := hfound other
  grind

theorem withItem (h : RefersInto K s) (ht : RefersInto K t) :
    RefersInto K { s with items := some t } := by
  have changed : ∀ u, some t = some u → RefersInto K u := fun u hu => Option.some.inj hu ▸ ht
  exact h.withItems changed

theorem withAlternatives (h : RefersInto K s) {all any one : List Schema}
    (hall : ∀ t ∈ all, RefersInto K t) (hany : ∀ t ∈ any, RefersInto K t)
    (hone : ∀ t ∈ one, RefersInto K t) :
    RefersInto K
      { s with
        allOf := all.foldl Schema.pushNew s.allOf
        anyOf := any.foldl Schema.pushNew s.anyOf
        oneOf := one.foldl Schema.pushNew s.oneOf } := by
  refine h.of_parts rfl fun other hother => ?_
  rw [mem_parts] at hother ⊢
  have inAll := @mem_pushAll s.allOf all other
  have inAny := @mem_pushAll s.anyOf any other
  have inOne := @mem_pushAll s.oneOf one other
  have knownAll := hall other
  have knownAny := hany other
  have knownOne := hone other
  simp only at hother
  grind

/-- An object with properties alone. -/
theorem withProperties {properties : List (String × Schema)}
    (h : ∀ part ∈ properties.map Prod.snd, RefersInto K part) :
    RefersInto K { Schema.object with properties := properties } := by
  refine of_inline rfl fun part hpart => h part ?_
  simpa [mem_parts, Schema.object, Schema.typed] using hpart

end RefersInto

/-! ### Properties through references and compositions -/

/-- What holds within a schema holds within the properties that it lists. -/
theorem Everywhere.of_lists (h : Everywhere N s) {property : String × Schema}
    (listed : s.Lists property) : Everywhere N property.2 := by
  induction listed with
  | @own s property own =>
    refine (everywhere_iff.mp h).2 _ (mem_parts.mpr (.inr (.inl ?_)))
    exact List.mem_map.mpr ⟨property, own, rfl⟩
  | part mem _ _ ih => exact ih ((everywhere_iff.mp h).2 _ (mem_parts.mpr (by simp [mem])))

variable {r : Registry}

/-- What holds within a schema and within all that is registered holds within the properties
that are found. -/
theorem Everywhere.of_mem_allProperties (h : Everywhere N s)
    (hr : ∀ entry ∈ r.schemas, Everywhere N entry.2) {p : Property} (hp : p ∈ s.allProperties r) :
    Everywhere N p.schema := by
  rcases lists_of_mem_allProperties hp with ⟨-, own⟩ | ⟨entry, hentry, listed⟩
  · exact h.of_lists own
  · exact (hr entry hentry).of_lists listed

theorem mem_parts_inlined {d : Directive} (h : part ∈ (s.inlined r d t).parts) :
    part ∈ s.parts ∨ ∃ p ∈ t.allProperties r, part = p.schema := by
  have listed {property : String × Schema} (h : property ∈ (s.inlined r d t).properties) :
      property.2 ∈ s.properties.map Prod.snd ∨ ∃ p ∈ t.allProperties r, property.2 = p.schema := by
    rcases mem_properties_inlined h with old | ⟨p, hp, rfl⟩
    · exact .inl (List.mem_map.mpr ⟨property, old, rfl⟩)
    · exact .inr ⟨p, hp, rfl⟩
  obtain ⟨properties, required, same⟩ := exists_inlined s r d t
  rw [same] at h listed
  rw [mem_parts] at h ⊢
  rcases h with items | own | other
  · exact .inl (.inl items)
  · obtain ⟨property, hproperty, rfl⟩ := List.mem_map.mp own
    exact (listed hproperty).imp_left fun old => .inr (.inl old)
  · exact .inl (.inr (.inr other))

/-- Unwrapping copies properties, and with them references that were there before. -/
theorem RefersInto.inlined (h : RefersInto K s) (ht : RefersInto K t)
    (hr : ∀ entry ∈ r.schemas, RefersInto K entry.2) (d : Directive) :
    RefersInto K (s.inlined r d t) := by
  refine h.of_parts ?_ fun part hpart => (mem_parts_inlined hpart).imp_right ?_
  · obtain ⟨_, _, same⟩ := exists_inlined s r d t
    rw [same]
  · rintro ⟨p, hp, rfl⟩
    exact Everywhere.of_mem_allProperties ht hr hp

end Schema

end Schemata
