import Schemata.Proofs.Pass.Growth
import Schemata.Proofs.Pass.Outcome

/-!
# What overlays come to

A directive that is laid over a schema adds what it says itself, and the types that it names make
a difference to the discriminator, the additional properties, the excluded schema and the
alternatives only.  An array directive replaces the items or is laid over them.  Of an element the
schema directive comes first, the array directive second and the default last; a declaration has
one directive, which is laid over what its members come to.
-/
namespace Schemata

open Pass

namespace Compiler

variable {c : Compiler} {env : Environment} {element : Option Element} {t : TypeRef}
  {p q : Pass} {s laid : Schema} {d : Directive} {subject : String}

/-! ### Schema directives -/

theorem exists_of_withDiscriminator (hm : Yields (c.withDiscriminator s d subject) p laid q) :
    ∃ discriminator, laid = { s with facets.discriminator := discriminator } := by
  unfold withDiscriminator at hm
  split at hm
  · obtain ⟨rfl, -⟩ := yields_pure.mp hm
    exact ⟨s.facets.discriminator, by cases s; rfl⟩
  · obtain ⟨_, _, -, hm⟩ := yields_bind.mp hm
    obtain ⟨rfl, -⟩ := yields_pure.mp hm
    exact ⟨_, rfl⟩

/-- Only a type that the directive names gives the additional properties a new schema. -/
theorem exists_of_withAdditional (hm : Yields (c.withAdditional s d subject) p laid q) :
    ∃ additional, laid = { s with additional := additional } ∧
      ∀ value, additional = some (.schema value) → s.additional = some (.schema value) ∨
        ∃ text, Yields (c.named? subject text) p (some value) q := by
  unfold withAdditional at hm
  split at hm
  · obtain ⟨rfl, -⟩ := yields_pure.mp hm
    exact ⟨_, rfl, fun _ same => by cases same⟩
  · rename_i text _
    obtain ⟨found, _, named, hm⟩ := yields_bind.mp hm
    cases found with
    | none =>
      obtain ⟨rfl, -⟩ := yields_pure.mp hm
      exact ⟨s.additional, by cases s; rfl, fun _ => .inl⟩
    | some value =>
      obtain ⟨rfl, rfl⟩ := yields_pure.mp hm
      exact ⟨_, rfl, fun _ same => by cases same; exact .inr ⟨text, named⟩⟩
  · obtain ⟨rfl, -⟩ := yields_pure.mp hm
    exact ⟨s.additional, by cases s; rfl, fun _ => .inl⟩

theorem exists_of_withNot (hm : Yields (c.withNot s d subject) p laid q) :
    ∃ excluded, laid = { s with not := excluded } ∧
      ∀ value, excluded = some value → s.not = some value ∨
        ∃ text, Yields (c.named? subject text) p (some value) q := by
  unfold withNot at hm
  split at hm
  · obtain ⟨rfl, -⟩ := yields_pure.mp hm
    exact ⟨s.not, by cases s; rfl, fun _ => .inl⟩
  · rename_i text _
    obtain ⟨found, _, named, hm⟩ := yields_bind.mp hm
    obtain ⟨rfl, rfl⟩ := yields_pure.mp hm
    refine ⟨_, rfl, fun value same => ?_⟩
    cases found with
    | none => exact .inl same
    | some _ => cases same; exact .inr ⟨text, named⟩

/-- A directive that names no types finds none. -/
theorem eq_nil_of_allNamed {all : List Schema} (hm : Yields (c.allNamed subject []) p all q) :
    all = [] := by
  simp only [allNamed, List.mapM_nil, yields_bind, yields_pure] at hm
  obtain ⟨_, _, ⟨rfl, -⟩, rfl, -⟩ := hm
  rfl

theorem yields_withAlternatives : Yields (c.withAlternatives s d subject) p laid q ↔
    ∃ all p₁ any p₂ one, Yields (c.allNamed subject (d.texts "allOf")) p all p₁ ∧
      Yields (c.allNamed subject (d.texts "anyOf")) p₁ any p₂ ∧
      Yields (c.allNamed subject (d.texts "oneOf")) p₂ one q ∧
      { s with
        allOf := all.foldl Schema.pushNew s.allOf
        anyOf := any.foldl Schema.pushNew s.anyOf
        oneOf := one.foldl Schema.pushNew s.oneOf } = laid := by
  simp only [withAlternatives, yields_bind, yields_pure]
  constructor
  · rintro ⟨all, p₁, first, any, p₂, second, one, _, third, same, rfl⟩
    exact ⟨all, p₁, any, p₂, one, first, second, third, same⟩
  · rintro ⟨all, p₁, any, p₂, one, first, second, third, same⟩
    exact ⟨all, p₁, first, any, p₂, second, one, q, third, same, rfl⟩

/-- What the directive says itself, before any type that it names is looked up. -/
def laidFirst (env : Environment) (p : Pass) (s : Schema) (d : Directive)
    (element : Option Element) (t : TypeRef) : Schema :=
  ((s.overlaid d (!(element.any Element.isMember)) (subjectOf element t)).1.withLiterals env
    p.registry d (subjectOf element t) t).1

/-- What is laid over a schema, the types that the directive names left open. -/
theorem exists_of_overlay (hm : Yields (c.overlay env s d element t) p laid q) :
    ∃ discriminator additional excluded all any one, (d.texts "allOf" = [] → all = []) ∧
      laid = { withExtensions { laidFirst env p s d element t with
          facets.discriminator := discriminator } d with
        additional := additional
        not := excluded
        allOf := all.foldl Schema.pushNew s.allOf
        anyOf := any
        oneOf := one } := by
  simp only [overlay, yields_bind, yields_noting, yields_get] at hm
  obtain ⟨_, _, ⟨rfl, rfl⟩, _, _, ⟨rfl, rfl⟩, _, _, ⟨rfl, -⟩, _, _, discriminated, _, _, extended,
    _, _, negated, hm⟩ := hm
  obtain ⟨discriminator, rfl⟩ := exists_of_withDiscriminator discriminated
  obtain ⟨additional, rfl, -⟩ := exists_of_withAdditional extended
  obtain ⟨excluded, rfl, -⟩ := exists_of_withNot negated
  obtain ⟨all, _, any, _, one, named, -, -, rfl⟩ := yields_withAlternatives.mp hm
  exact ⟨discriminator, additional, excluded, all, _, _,
    fun none => eq_nil_of_allNamed (none ▸ named), rfl⟩

/-! ### Array directives -/

/-- The ways in which an array directive is laid over the items: a type that it names replaces
them, or there are none, or it is laid over them as a schema directive is. -/
inductive OverlaysItems (c : Compiler) (env : Environment) (s : Schema) (items : Directive)
    (t : TypeRef) (p : Pass) : Schema → Pass → Prop where
  | replaced {text : String} {found : Option Schema} {q : Pass}
      (names : items.text? "implementation" = some text)
      (named : Yields (c.named? t.display text) p found q) :
      OverlaysItems c env s items t p { s with items := found.or s.items } q
  | absent (none : s.items = none) : OverlaysItems c env s items t p s p
  | changed {item changed : Schema} {q : Pass} (present : s.items = some item)
      (overlaid : Yields (c.overlay env item items none (env.types.itemType t)) p changed q) :
      OverlaysItems c env s items t p { s with items := some changed } q

variable {items : Directive}

theorem overlaysItems_of_yields (hm : Yields (c.overlayItems env s items t) p laid q) :
    c.OverlaysItems env s items t p laid q := by
  unfold overlayItems at hm
  split at hm
  · rename_i text names
    obtain ⟨found, _, named, hm⟩ := yields_bind.mp hm
    obtain ⟨rfl, rfl⟩ := yields_pure.mp hm
    exact .replaced names named
  · split at hm
    · rename_i none
      obtain ⟨rfl, rfl⟩ := yields_pure.mp hm
      exact .absent none
    · rename_i item present
      obtain ⟨changed, _, overlaid, hm⟩ := yields_bind.mp hm
      obtain ⟨rfl, rfl⟩ := yields_pure.mp hm
      exact .changed present overlaid

/-- Nothing but the items is changed. -/
theorem exists_of_overlayItems (hm : Yields (c.overlayItems env s items t) p laid q) :
    ∃ item, laid = { s with items := item } := by
  cases overlaysItems_of_yields hm with
  | replaced => exact ⟨_, rfl⟩
  | absent => exact ⟨s.items, by cases s; rfl⟩
  | changed => exact ⟨_, rfl⟩

/-! ### The directives of an element -/

variable {e : Element}

theorem overlayStated_cases (hm : Yields (c.overlayStated env s e t) p laid q) :
    (∃ d, e.directive? .schema = some d ∧ Yields (c.overlay env s d (some e) t) p laid q) ∨
      e.directive? .schema = none ∧ laid = s ∧ q = p := by
  unfold overlayStated at hm
  split at hm
  · rename_i d stated
    exact .inl ⟨d, stated, hm⟩
  · rename_i unstated
    obtain ⟨rfl, rfl⟩ := yields_pure.mp hm
    exact .inr ⟨unstated, rfl, rfl⟩

theorem overlayStatedArray_cases (hm : Yields (c.overlayStatedArray env s e t) p laid q) :
    (∃ d, e.directive? .arraySchema = some d ∧ Yields (c.overlayArray env s d t) p laid q) ∨
      e.directive? .arraySchema = none ∧ laid = s ∧ q = p := by
  unfold overlayStatedArray at hm
  split at hm
  · rename_i d stated
    exact .inl ⟨d, stated, hm⟩
  · rename_i unstated
    obtain ⟨rfl, rfl⟩ := yields_pure.mp hm
    exact .inr ⟨unstated, rfl, rfl⟩

/-- The default of an element is read after its directives are laid over a schema, against the type
that the schema has then. -/
theorem yields_overlayAll {target : ConstraintTarget} {fallback : List Schema} :
    Yields (c.overlayAll env s e t target fallback) p laid q ↔
      ∃ s₁ p₁ s₂ p₂, Yields (c.overlayStated env s e t) p s₁ p₁ ∧
        Yields (c.overlayStatedArray env s₁ e t) p₁ s₂ p₂ ∧
        ∃ found, found = e.default? (literalType env.types p₂.registry
            (s₂.constrained target e.directives :: fallback) t)
            (s₂.constrained target e.directives).facets.defaultValue ∧
          { s₂.constrained target e.directives with facets.defaultValue := found.1 } = laid ∧
          p₂.withDiagnostics found.2 = q := by
  simp only [overlayAll, yields_bind, yields_get, yields_noting, yields_pure]
  constructor
  · rintro ⟨s₁, p₁, first, s₂, p₂, second, _, _, ⟨rfl, rfl⟩, _, _, ⟨rfl, rfl⟩, same, rfl⟩
    exact ⟨s₁, p₁, s₂, p₂, first, second, _, rfl, same, rfl⟩
  · rintro ⟨s₁, p₁, s₂, p₂, first, second, _, rfl, same, rfl⟩
    exact ⟨s₁, p₁, first, s₂, p₂, second, _, _, ⟨rfl, rfl⟩, _, _, ⟨rfl, rfl⟩, same, rfl⟩

/-! ### The directive of a declaration -/

/-- Types that the directive of a declaration names are defined after its members were added. -/
theorem overlayOwn_cases {depth : Nat} {owner : Decl}
    (hm : Yields ((ofDepth env depth).overlayOwn env owner t s) p laid q) :
    owner.directives.get? .schema = none ∧ laid = s ∧ q = p ∨
      ∃ d whole, owner.directives.get? .schema = some d ∧
        Yields ((ofDepth env depth).overlay env s d none t) p whole q ∧
        laid = whole.completed env.types t ∧ Grows p q := by
  unfold overlayOwn at hm
  split at hm
  · rename_i unstated
    obtain ⟨rfl, rfl⟩ := yields_pure.mp hm
    exact .inl ⟨unstated, rfl, rfl⟩
  · rename_i d stated
    obtain ⟨whole, _, overlaid, hm⟩ := yields_bind.mp hm
    obtain ⟨rfl, rfl⟩ := yields_pure.mp hm
    have grows : Grows p _ := overlaid.grows
      ((frame_grows env).course.trail.overlay fun call _ => (frame_grows env).ofDepth depth call)
    exact .inr ⟨d, whole, stated, overlaid, rfl, grows⟩

end Compiler

end Schemata
