import Schemata.Proofs.Directive.Effects
import Schemata.Proofs.Pass.Growth

/-!
# Decorated references

Beside a reference the directives of an element build an overlay.  The reference stays alone if
the overlay only decorates it; otherwise the two are composed, and the labels of the overlay, but
for its title, are those of the node around them.  What is composed has structure, unless all that
it says is the title of an object.
-/
namespace Schemata

open Pass

/-! ### Overlays without structure -/

theorem Facets.isEmpty_iff {f : Facets} : f.isEmpty = true ↔ f = {} := by
  cases f
  simp [Facets.isEmpty, and_assoc]

namespace Schema

theorem hasStructure_eq_false_iff {s : Schema} :
    s.hasStructure = false ↔ s = { name := s.name, labels := s.labels } := by
  cases s
  simp [hasStructure, isLeaf, Facets.isEmpty_iff, and_assoc]

/-- All that the overlay says is said by labels, or it says besides that values are objects and
gives no title. -/
def Decorates (s : Schema) : Prop :=
  s = { name := s.name, labels := s.labels } ∨
    s = { name := s.name, type := some .object, labels := s.labels } ∧ s.labels.title = none

theorem decorates_mk {type : Option SchemaType} {labels : Labels} :
    ({ type := type, labels := labels } : Schema).Decorates ↔
      type = none ∨ type = some .object ∧ labels.title = none := by
  simp [Decorates]

/-- What stands beside a reference is bare exactly if no more is said than labels, and that values
are objects. -/
theorem hasStructure_innerPart_eq_false_iff {s : Schema} : s.innerPart.hasStructure = false ↔
    s = { name := s.name, labels := s.labels } ∨
      s = { name := s.name, type := some .object, labels := s.labels } := by
  rw [hasStructure_eq_false_iff]
  cases s with
  | mk name ref type labels facets items properties required additional allOf oneOf anyOf not =>
    simp only [innerPart, isPlainObject, isObject, isMap, mk.injEq, true_and]
    by_cases object : type = some .object
    · cases additional <;> simp [object]
    · simp [object]

theorem isEmpty_innerPart_iff {s : Schema} :
    s.innerPart.isEmpty = true ↔ s.labels.title = none ∧ s.innerPart.hasStructure = false := by
  rw [isEmpty_iff]
  refine and_congr_left fun _ => ?_
  simp [innerPart, Labels.isEmpty]

theorem decorates_iff {s : Schema} :
    s.Decorates ↔ (!s.hasStructure || s.innerPart.isEmpty) = true := by
  rw [Bool.or_eq_true, Bool.not_eq_true', isEmpty_innerPart_iff,
    hasStructure_innerPart_eq_false_iff, hasStructure_eq_false_iff, Decorates]
  tauto

/-- What becomes of a reference and of the overlay beside it. -/
inductive BoundTo (reference overlay : Schema) (e : Element) (nullable : Bool) : Schema → Prop where
  | alone (decorates : overlay.Decorates) :
      BoundTo reference overlay e nullable (reference.nullableIf nullable)
  | composed (adds : ¬ overlay.Decorates) :
      BoundTo reference overlay e nullable
        { type := if overlay.isPlainObject then some .object else none
          labels :=
            { description := overlay.labels.description.or e.description?
              deprecated :=
                if overlay.labels.deprecated = some true ∨ e.has .deprecated = true then some true
                else none
              nullable := if nullable then some true else none
              externalDocs := overlay.labels.externalDocs }
          allOf := [reference,
            { overlay with
              type := if overlay.isPlainObject then none else overlay.type
              labels := { overlay.labels with
                description := none, deprecated := none, nullable := none
                externalDocs := none } }] }

theorem boundTo_compose (reference overlay : Schema) (e : Element) (nullable : Bool) :
    BoundTo reference overlay e nullable (reference.compose overlay e nullable) := by
  unfold compose
  split
  · rename_i decorates
    exact .alone (decorates_iff.mpr decorates)
  · rename_i adds
    have more : ¬ overlay.Decorates := fun decorates => adds (decorates_iff.mp decorates)
    simpa [outerLabels, innerPart] using BoundTo.composed more

end Schema

/-! ### Binding to references -/

namespace Pass

variable {env : Environment} {depth : Nat} {e : Element} {t : TypeRef} {d s : Schema}
  {nullable : Bool} {p q : Pass}

/-- Pets are declared, and nothing else is. -/
def pets : Environment where
  types := (Universe.initial .standard).insertAll
    [{ name := "com.acme.Pet", members := [{ name := "name", type := .plain "string" }] }]
  config := {}

/-- A member of the type of pets. -/
def petMember (ds : Directives) : Element := { name := "pet", directives := ds }

/-- What the directives of the member are bound to. -/
def boundPet (ds : Directives) (nullable : Bool) : PassM Schema :=
  (Compiler.ofDepth pets 1).bind pets (petMember ds) (.plain "com.acme.Pet") (.reference "Pet")
    nullable

/-- What is bound to a reference is the reference, or its composition with the overlay that the
directives build; nothing that is registered changes. -/
theorem boundTo_of_bind (ref : d.isRef = true)
    (h : Yields ((Compiler.ofDepth env depth).bind env e t d nullable) p s q) :
    p.registry.schemas <+: q.registry.schemas ∧
      ∃ overlay, Yields ((Compiler.ofDepth env depth).overlayAll env {} e t
          (Element.constraintTarget env p.registry t d) [d]) p overlay q ∧
        d.BoundTo overlay e (e.admitsNull nullable) s := by
  have grows : Grows p q :=
    h.grows ((frame_grows env).bindElement ((frame_grows env).ofDepth depth) e t d nullable)
  obtain ⟨overlay, laid, rfl⟩ := (Compiler.yields_bind_of_isRef ref).mp h
  exact ⟨grows.schemas, overlay, laid, Schema.boundTo_compose d overlay e _⟩

/-- A pattern stands beside the reference, and that null is admitted around the two. -/
theorem boundTo_of_bind_pattern :
    let directives : Directives := [(.schema, [("description", .str "A favourite.")]),
      (.pattern, [("regexp", .str "^P")])]
    ∃ s, Yields (boundPet directives true) {} s (stateAfter (boundPet directives true) {}) ∧
      s.allOf.length = 2 ∧
      (Schema.reference "Pet").isRef = true ∧
      ({} : Pass).registry.schemas <+:
        (stateAfter (boundPet directives true) {}).registry.schemas ∧
      ∃ overlay, Yields ((Compiler.ofDepth pets 1).overlayAll pets {} (petMember directives)
          (.plain "com.acme.Pet") (Element.constraintTarget pets {} (.plain "com.acme.Pet")
            (.reference "Pet")) [.reference "Pet"]) {} overlay
          (stateAfter (boundPet directives true) {}) ∧
        (Schema.reference "Pet").BoundTo overlay (petMember directives)
          ((petMember directives).admitsNull true) s := by
  intro directives
  have composes : passes (boundPet directives true) {} (fun s => s.allOf.length == 2) = true := by
    decide +kernel
  obtain ⟨s, bound, composed⟩ := exists_of_passes composes
  exact ⟨s, bound, beq_iff_eq.mp composed, rfl, boundTo_of_bind rfl bound⟩

end Pass

/-! ### Brief directives -/

/-- The keys under which an array directive says more than a schema directive. -/
def Directive.arrayKeys : List String := ["minItems", "maxItems", "uniqueItems", "items"]

namespace Directives

/-- Whether all that the directives say of a value are labels, and perhaps its type. -/
def isBrief (ds : Directives) : Bool :=
  (ds.get? .schema).all Directive.isBrief
    && (ds.get? .arraySchema).all (fun d =>
        d.isBrief && Directive.arrayKeys.all fun key => (d.get? key).isNone)
    && ds.constraints.all (·.1 == .notNull)
    && [DirectiveKind.bindable, .jsonProperty].all fun kind =>
        ((ds.get? kind).bind (Assoc.get? · "default")).isNone

/-- The type that the directives state; that of the array directive counts first. -/
def statedType? (ds : Directives) : Option SchemaType :=
  ((ds.get? .arraySchema).bind Directive.statedType?).or
    ((ds.get? .schema).bind Directive.statedType?)

def statedTitle? (ds : Directives) : Option String :=
  ((ds.get? .arraySchema).bind (Directive.text? · "title")).or
    ((ds.get? .schema).bind (Directive.text? · "title"))

end Directives

theorem Facets.foldl_constrain_notNull (target : ConstraintTarget) {ds : Directives}
    (h : ∀ entry ∈ ds, entry.1 = .notNull) (f : Facets) :
    ds.foldl (fun f entry => f.constrain target entry.1 entry.2) f = f := by
  induction ds generalizing f with
  | nil => rfl
  | cons entry ds ih =>
    have first : f.constrain target entry.1 entry.2 = f := by
      rw [h entry List.mem_cons_self]
      rfl
    rw [List.foldl_cons, first]
    exact ih (fun entry mem => h entry (List.mem_cons_of_mem _ mem)) f

namespace Compiler

variable {c : Compiler} {env : Environment} {e : Element} {t : TypeRef} {s s' : Schema}
  {p q : Pass} {d : Directive}

theorem overlayArray_of_isBrief (brief : d.isBrief = true)
    (plain : ∀ key ∈ Directive.arrayKeys, d.get? key = none)
    (hm : Yields (c.overlayArray env s d t) p s' q) :
    s' = { s with type := d.statedType?.or s.type, labels := s.labels.overlaid d true } := by
  simp only [Directive.arrayKeys, List.forall_mem_cons] at plain
  obtain ⟨laid, _, overlaid, hm⟩ := yields_bind.mp hm
  obtain rfl := overlay_of_isBrief brief overlaid
  simp only [Directive.section?, Directive.count?, Directive.raised, Directive.flag?, plain,
    Option.none_or, reduceCtorEq, if_false, yields_pure] at hm
  exact hm.1.symm

theorem overlayStated_of_isBrief (brief : (e.directives.get? .schema).all Directive.isBrief = true)
    (hm : Yields (c.overlayStated env s e t) p s' q) :
    s'.labels.title = ((e.directives.get? .schema).bind (Directive.text? · "title")).or
        s.labels.title ∧
      s' = { s with
        type := ((e.directives.get? .schema).bind Directive.statedType?).or s.type
        labels := s'.labels } := by
  rcases overlayStated_cases hm with ⟨d, stated, hm⟩ | ⟨unstated, rfl, -⟩
  · rw [Element.directive?] at stated
    simp only [stated] at brief ⊢
    obtain rfl := overlay_of_isBrief brief hm
    exact ⟨rfl, rfl⟩
  · rw [Element.directive?] at unstated
    simp only [unstated]
    exact ⟨rfl, by cases s'; rfl⟩

theorem overlayStatedArray_of_isBrief
    (brief : (e.directives.get? .arraySchema).all (fun d =>
      d.isBrief && Directive.arrayKeys.all fun key => (d.get? key).isNone) = true)
    (hm : Yields (c.overlayStatedArray env s e t) p s' q) :
    s'.labels.title = ((e.directives.get? .arraySchema).bind (Directive.text? · "title")).or
        s.labels.title ∧
      s' = { s with
        type := ((e.directives.get? .arraySchema).bind Directive.statedType?).or s.type
        labels := s'.labels } := by
  rcases overlayStatedArray_cases hm with ⟨d, stated, hm⟩ | ⟨unstated, rfl, -⟩
  · rw [Element.directive?] at stated
    simp only [stated, Option.all_some, Bool.and_eq_true, List.all_eq_true,
      Option.isNone_iff_eq_none] at brief ⊢
    obtain rfl := overlayArray_of_isBrief brief.1 brief.2 hm
    exact ⟨rfl, rfl⟩
  · rw [Element.directive?] at unstated
    simp only [unstated]
    exact ⟨rfl, by cases s'; rfl⟩

/-- Brief directives build an overlay that has a type and labels only. -/
theorem overlayAll_of_isBrief (brief : e.directives.isBrief = true) {target : ConstraintTarget}
    {fallback : List Schema} (hm : Yields (c.overlayAll env {} e t target fallback) p s q) :
    s.labels.title = e.directives.statedTitle? ∧
      s = { type := e.directives.statedType?, labels := s.labels } := by
  simp only [Directives.isBrief, Bool.and_eq_true] at brief
  obtain ⟨⟨⟨schema, array⟩, constraints⟩, defaults⟩ := brief
  obtain ⟨first, _, second, _, stated, statedArray, found, read, rfl, -⟩ :=
    yields_overlayAll.mp hm
  obtain ⟨title, first_eq⟩ := overlayStated_of_isBrief schema stated
  obtain ⟨title', second_eq⟩ := overlayStatedArray_of_isBrief array statedArray
  have laid : second = { type := e.directives.statedType?, labels := second.labels } := by
    rw [second_eq, first_eq, Option.or_none]
    rfl
  have unconstrained : second.constrained target e.directives = second := by
    have none : ∀ entry ∈ e.directives.constraints, entry.1 = .notNull := by
      simpa only [List.all_eq_true, beq_iff_eq] using constraints
    rw [Schema.constrained, Facets.foldl_constrain_notNull target none]
    cases second
    rfl
  have noDefault : found.1 = none := by
    simp only [List.all_cons, List.all_nil, Bool.and_true, Bool.and_eq_true,
      Option.isNone_iff_eq_none] at defaults
    rw [read, unconstrained, laid]
    simp only [Element.default?, Element.defaultFrom, Element.directive?, defaults]
  rw [unconstrained, noDefault]
  constructor
  · rw [title', title, Option.or_none]
    rfl
  · rw [laid]

end Compiler

namespace Schema

/-- When a reference stays alone, and what stands beside it where it does not. -/
structure Collapses (reference overlay : Schema) (e : Element) (nullable : Bool) (s : Schema) :
    Prop where
  alone : s = reference.nullableIf nullable ↔ overlay.Decorates
  /-- What is composed with the reference has structure, or it is the title of an object. -/
  beside : s ≠ reference.nullableIf nullable → ∃ part, s.allOf = [reference, part] ∧
    (part.hasStructure = true ∨
      s.type = some .object ∧ ∃ title, part = { name := part.name, labels.title := some title })
  /-- The reference stays alone where labels are all that is said, and where values are said to be
  objects besides, unless the object is given a title. -/
  brief : e.directives.isBrief = true →
    (s = reference.nullableIf nullable ↔
      e.directives.statedType? = none ∨
        e.directives.statedType? = some .object ∧ e.directives.statedTitle? = none)

theorem ref_nullableIf (s : Schema) (nullable : Bool) : (s.nullableIf nullable).ref = s.ref := by
  cases nullable <;> rfl

/-- An overlay that does more than decorate has structure beside the reference, or gives an object
a title. -/
theorem structured_or_titled {overlay : Schema} (adds : ¬ overlay.Decorates) :
    overlay.innerPart.hasStructure = true ∨ overlay.isPlainObject = true ∧
      ∃ title, overlay.innerPart =
        { name := overlay.innerPart.name, labels.title := some title } := by
  cases structured : overlay.innerPart.hasStructure with
  | true => exact .inl rfl
  | false =>
    refine .inr ?_
    rcases hasStructure_innerPart_eq_false_iff.mp structured with labels | object
    · exact absurd (.inl labels) adds
    · cases titled : overlay.labels.title with
      | none => exact absurd (.inr ⟨object, titled⟩) adds
      | some title =>
        have plain : overlay.isPlainObject = true := by
          rw [object]
          rfl
        refine ⟨plain, title, ?_⟩
        rw [hasStructure_eq_false_iff.mp structured]
        simp [innerPart, titled]

namespace BoundTo

variable {reference overlay s : Schema} {e : Element} {nullable : Bool}

theorem eq_iff (h : reference.BoundTo overlay e nullable s) (ref : reference.isRef = true) :
    s = reference.nullableIf nullable ↔ overlay.Decorates := by
  cases h with
  | alone decorates => exact iff_of_true rfl decorates
  | composed adds =>
    refine iff_of_false (fun same => ?_) adds
    have inline := congrArg Schema.ref same
    rw [ref_nullableIf] at inline
    rw [isRef, ← inline] at ref
    cases ref

theorem beside (h : reference.BoundTo overlay e nullable s)
    (other : s ≠ reference.nullableIf nullable) : ∃ part, s.allOf = [reference, part] ∧
      (part.hasStructure = true ∨
        s.type = some .object ∧
          ∃ title, part = { name := part.name, labels.title := some title }) := by
  cases h with
  | alone => exact absurd rfl other
  | composed adds =>
    refine ⟨overlay.innerPart, by simp [innerPart], ?_⟩
    exact (structured_or_titled adds).imp_right fun titled => ⟨if_pos titled.1, titled.2⟩

end BoundTo

end Schema

namespace Pass

variable {env : Environment} {depth : Nat} {e : Element} {t : TypeRef} {d s : Schema}
  {nullable : Bool} {p q : Pass}

/-- Decoration leaves a reference alone, but for the title of an object. -/
theorem collapses_of_bind (ref : d.isRef = true)
    (h : Yields ((Compiler.ofDepth env depth).bind env e t d nullable) p s q) :
    ∃ overlay, Yields ((Compiler.ofDepth env depth).overlayAll env {} e t
        (Element.constraintTarget env p.registry t d) [d]) p overlay q ∧
      d.Collapses overlay e (e.admitsNull nullable) s := by
  obtain ⟨overlay, laid, rfl⟩ := (Compiler.yields_bind_of_isRef ref).mp h
  have bound := Schema.boundTo_compose d overlay e (e.admitsNull nullable)
  refine ⟨overlay, laid, bound.eq_iff ref, bound.beside, fun brief => ?_⟩
  obtain ⟨title, same⟩ := Compiler.overlayAll_of_isBrief brief laid
  rw [bound.eq_iff ref, ← title, same]
  exact Schema.decorates_mk

/-- That pets are objects is no reason for a composition. -/
theorem collapses_of_bind_object :
    let directives : Directives := [(.schema, [("type", .str "object"),
      ("description", .str "A favourite.")])]
    ∃ s, Yields (boundPet directives false) {} s (stateAfter (boundPet directives false) {}) ∧
      s.isRef = true ∧ directives.isBrief = true ∧
      ∃ overlay, Yields ((Compiler.ofDepth pets 1).overlayAll pets {} (petMember directives)
          (.plain "com.acme.Pet") (Element.constraintTarget pets {} (.plain "com.acme.Pet")
            (.reference "Pet")) [.reference "Pet"]) {} overlay
          (stateAfter (boundPet directives false) {}) ∧
        (Schema.reference "Pet").Collapses overlay (petMember directives)
          ((petMember directives).admitsNull false) s := by
  intro directives
  have collapses : passes (boundPet directives false) {} Schema.isRef = true := by decide +kernel
  obtain ⟨s, bound, ref⟩ := exists_of_passes collapses
  exact ⟨s, bound, ref, by decide, collapses_of_bind rfl bound⟩

/-- What is composed with a reference has structure. -/
def AddsStructure (env : Environment) : Prop :=
  ∀ depth e t d nullable p s q part, d.isRef = true →
    Yields ((Compiler.ofDepth env depth).bind env e t d nullable) p s q →
      s.allOf = [d, part] → part.hasStructure = true

/-- An object that is given a title is composed with the title alone. -/
theorem not_addsStructure_titledPet : ¬ AddsStructure pets := by
  intro adds
  let directives : Directives := [(.schema, [("type", .str "object"),
    ("title", .str "Favourite")])]
  have composes : passes (boundPet directives false) {}
      (fun s => !s.isRef && s.allOf.tail.all fun part => !part.hasStructure) = true := by
    decide +kernel
  obtain ⟨s, bound, bare⟩ := exists_of_passes composes
  rw [Bool.and_eq_true, Bool.not_eq_true'] at bare
  obtain ⟨overlay, -, same⟩ := (Compiler.yields_bind_of_isRef (d := .reference "Pet") rfl).mp bound
  have composed := Schema.boundTo_compose (.reference "Pet") overlay (petMember directives)
    ((petMember directives).admitsNull false)
  rw [same] at composed
  obtain ⟨part, parts, -⟩ := composed.beside fun alone => by
    rw [alone, Schema.isRef, Schema.ref_nullableIf] at bare
    cases bare.1
  have structured := adds _ _ _ _ _ _ _ _ _ rfl bound parts
  simp [parts, structured] at bare

end Pass

end Schemata
