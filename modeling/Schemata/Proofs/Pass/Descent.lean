import Mathlib.Data.Finset.Card
import Schemata.Proofs.Pass.Loops
import Schemata.Proofs.Pass.Vocabulary
import Schemata.Proofs.Universe.Keys

/-!
# What a call leads to

Calls lead to calls of the same vocabulary.  From one definition to the next there are fewer and
fewer types inside those that are asked for, unless one of them is inside itself; only where a
directive puts another type in the place of a member, and where a definition is entered, may there
be more again.
-/
namespace Schemata

open Pass Relation

/-! ### Vocabularies -/

namespace Vocabulary

variable {env : Environment} {v : Vocabulary env}

theorem object_mem (v : Vocabulary env) : .object ∈ v.types := v.value .object

theorem inner_mem {s t : TypeRef} (parts : t.parts ⊆ v.types) (h : s ∈ t.parts ∨ s = .object) :
    s ∈ v.types :=
  h.elim (fun part => parts part) fun same => same ▸ v.object_mem

/-- What is inside the type is in the vocabulary, and so is the type itself, unless it is
generic. -/
structure Holds (v : Vocabulary env) (t : TypeRef) : Prop where
  parts : t.parts ⊆ v.types
  itself : (∀ d, env.types.declOf? t = some d → d.params = []) → t ∈ v.types

theorem holds_of_mem {t : TypeRef} (h : t ∈ v.types) : v.Holds t :=
  ⟨fun _ hs => v.part h hs, fun _ => h⟩

/-- The directives of an element are in the vocabulary. -/
def Speaks (v : Vocabulary env) (element : Option Element) : Prop :=
  ∀ e, element = some e → e.directives.textsIn ⊆ v.texts

theorem speaks_none (v : Vocabulary env) : v.Speaks none := fun _ h => by cases h

/-! ### Opening -/

theorem mem_opened (subject : String) {t : TypeRef} (h : t ∈ v.types) :
    (t.opened env.types subject).1.type ∈ v.types :=
  TypeRef.opened_induction (P := fun t s => t ∈ v.types → s ∈ v.types) (fun _ => id)
    (fun _ => id) (fun _ _ _ => v.object_mem) (fun _ part inner h => inner (v.part h part)) subject t h

theorem mem_overridden (subject : String) {element : Option Element} (speaks : v.Speaks element)
    {t : TypeRef} (h : t ∈ v.types) :
    (overridden env.types subject (element.bind (·.directive? .schema)) t).1 ∈ v.types := by
  generalize same : (overridden env.types subject (element.bind (·.directive? .schema)) t).1 = s
  rcases overridden_cases env.types subject element t same with
    rfl | ⟨e, d, text, rfl, schema, named, parsed⟩ | ⟨p, rfl⟩
  · exact h
  · refine v.named (speaks e rfl ?_) parsed
    exact Directives.textsIn_subset_of_get? schema (Directive.mem_texts_of_text? named)
  · exact v.value p

/-- A substitute that takes over arguments is generic, and the arguments are in the
vocabulary. -/
theorem holds_carryBindings (hu : env.types.Concrete) (keyed : env.types.Keyed)
    {target t : TypeRef} (htarget : target ∈ v.types) (h : t ∈ v.types) :
    v.Holds (env.types.carryBindings target t) := by
  rcases Universe.parts_carryBindings hu target t with
    written | ⟨⟨name, d, args, hget, generic, same⟩, parts⟩
  · rw [written]
    exact holds_of_mem htarget
  · refine ⟨fun s hs => inner_mem (holds_of_mem h).parts (parts s hs), fun params => ?_⟩
    rw [same] at params
    have own : env.types.get? d.name = some d := by rw [keyed name d hget, hget]
    exact absurd (params d own) generic

theorem holds_replaced (hu : env.types.Concrete) (keyed : env.types.Keyed) (subject : String)
    {t : TypeRef} (h : t ∈ v.types) : v.Holds (replaced env subject t).1 := by
  rcases replaced_cases env subject t rfl with same | ⟨entry, mem, target, parsed, same⟩
  · rw [same]
    exact holds_of_mem h
  · rw [same]
    exact holds_carryBindings hu keyed (v.named (v.replacement mem) parsed) h

/-- Before an occurrence is looked at, it stays in the vocabulary. -/
theorem holds_openOccurrence (hu : env.types.Concrete) (keyed : env.types.Keyed)
    {element : Option Element} (speaks : v.Speaks element) {t : TypeRef} (h : t ∈ v.types) :
    v.Holds (openOccurrence env element t).1.type :=
  holds_replaced hu keyed _ (mem_opened _ (mem_overridden _ speaks h))

/-! ### How much is inside -/

section

open scoped Classical

/-- How many types are inside a type. -/
noncomputable def height (v : Vocabulary env) (t : TypeRef) : Nat :=
  (v.types.toFinset.filter fun s => TransGen (Inside env) s t).card

theorem height_le_length (v : Vocabulary env) (t : TypeRef) : v.height t ≤ v.types.length :=
  Nat.le_trans (Finset.card_filter_le _ _) (List.toFinset_card_le _)

/-- A type that is not inside itself is not counted for itself. -/
theorem height_lt_length {t : TypeRef} (h : t ∈ v.types) (straight : ¬ Loops env t) :
    v.height t < v.types.length := by
  refine Nat.lt_of_lt_of_le (Finset.card_lt_card ?_) (List.toFinset_card_le v.types)
  exact Finset.filter_ssubset.mpr
    ⟨t, List.mem_toFinset.mpr h, fun loop => straight (.of_inside loop)⟩

/-- What is inside a type comes before it. -/
theorem height_lt {s t : TypeRef} (h : s ∈ v.types) (inside : Inside env s t)
    (straight : ¬ Loops env s) : v.height s < v.height t := by
  refine Finset.card_lt_card (Finset.ssubset_iff_of_subset ?_ |>.mpr ⟨s, ?_, ?_⟩)
  · exact Finset.monotone_filter_right _ fun r _ below => below.tail inside
  · exact Finset.mem_filter.mpr ⟨List.mem_toFinset.mpr h, .single inside⟩
  · exact fun counted => straight (.of_inside (Finset.mem_filter.mp counted).2)

end

end Vocabulary

/-! ### Calls -/

/-- The call stays in a vocabulary, under one of some views, and defines no generic type. -/
def Call.Within {env : Environment} (v : Vocabulary env) (views : List (Option String)) :
    Call → Prop
  | .resolve element t scope => v.Speaks element ∧ t ∈ v.types ∧ scope.view ∈ views
  | .define element t scope => v.Speaks element ∧ t ∈ v.types ∧ scope.view ∈ views ∧
      ∀ d, env.types.declOf? t = some d → d.params = []

/-- How many calls there may be from a call to the next definition. -/
noncomputable def Call.steps {env : Environment} (v : Vocabulary env) : Call → Nat
  | .resolve none t _ => v.height t + 2
  | .resolve (some _) _ _ => v.types.length + 2
  | .define _ _ _ => 1

namespace Vocabulary

variable {env : Environment} {v : Vocabulary env} {views : List (Option String)}
  {element : Option Element} {t : TypeRef} {scope : Scope}

/-- What an occurrence leads to stays in the vocabulary, and leads to the next definition in
fewer steps, if none of it loops. -/
theorem within_ofOccurrence (hu : env.types.Concrete) (keyed : env.types.Keyed)
    (h : (Call.resolve element t scope).Within v views) :
    ∀ call ∈ Call.ofOccurrence env element t scope, call.Within v views ∧
      ((∀ s, call = .resolve none s scope → ¬ Loops env s) →
        call.steps v < (Call.resolve element t scope).steps v) := by
  obtain ⟨speaks, ht, hview⟩ := h
  have holds := holds_openOccurrence hu keyed speaks ht
  have definition : 1 < (Call.resolve element t scope).steps v := by
    cases element <;> exact Nat.lt_of_lt_of_le Nat.one_lt_two (Nat.le_add_left _ _)
  intro call hcall
  rcases Call.inner_or_define_of_mem_ofOpened hu call hcall with
    ⟨s, rfl, -, inner⟩ | ⟨s, hs, rfl, params⟩ | ⟨rfl, params⟩
  · have mem : s ∈ v.types := inner_mem holds.parts inner
    refine ⟨⟨v.speaks_none, mem, hview⟩, fun straight => ?_⟩
    cases element with
    | none =>
      exact Nat.add_lt_add_right (height_lt mem (inside_of_mem hcall) (straight s rfl)) 2
    | some e => exact Nat.add_lt_add_right (height_lt_length mem (straight s rfl)) 2
  · exact ⟨⟨v.speaks_none, holds.parts hs, hview, params⟩, fun _ => definition⟩
  · exact ⟨⟨speaks, holds.itself params, hview, params⟩, fun _ => definition⟩

theorem steps_le (v : Vocabulary env) (element : Option Element) (t : TypeRef) (scope : Scope) :
    (Call.resolve element t scope).steps v ≤ v.types.length + 2 := by
  cases element with
  | none => exact Nat.add_le_add_right (v.height_le_length t) 2
  | some e => exact Nat.le_refl _

theorem within_named (bare : none ∈ views) {texts : List String} (h : texts ⊆ v.texts) :
    ∀ call ∈ Call.named texts, call.Within v views ∧ call.steps v ≤ v.types.length + 2 := by
  intro call hcall
  obtain ⟨text, htext, t, parsed, rfl⟩ := Call.mem_named hcall
  exact ⟨⟨v.speaks_none, v.named (h htext) parsed, bare⟩, v.steps_le none t {}⟩

/-- The ancestors of a type that can be composed are composed, and are written as they are
found. -/
theorem within_lineageFrom (hu : env.types.Concrete) {steps : Nat} {seen : List String}
    {pending : List TypeRef}
    (h : ∀ t ∈ pending, t ∈ v.types ∧ env.types.isComposable t = true) :
    ∀ t ∈ env.types.lineageFrom steps seen pending,
      t ∈ v.types ∧ ∀ d, env.types.declOf? t = some d → d.params = [] := by
  intro t ht
  refine (Universe.holds_lineageFrom (fun {t d} held declared parent hparent => ?_) h t ht).1.imp_right
    (Universe.params_of_isComposable hu)
  obtain ⟨name, -, hget⟩ := Option.bind_eq_some_iff.mp declared
  have params := Universe.params_of_isComposable hu held.2 d declared
  rw [Universe.bindings_eq_nil declared params, Universe.substitute_composedParents] at hparent
  obtain ⟨written, composed⟩ := Universe.mem_composedParents hparent
  exact ⟨v.parent hget written, composed⟩

/-- What the definition of a type without parameters leads to. -/
theorem within_ofDefinition (hu : env.types.Concrete) (bare : none ∈ views) {name : String}
    {d : Decl} (declared : env.types.get? name = some d) (hview : scope.view ∈ views) :
    ∀ call ∈ Call.ofDefinition env d [] scope,
      call.Within v views ∧ call.steps v ≤ v.types.length + 2 := by
  have own : ((d.directives.get? .schema).map Directive.typeNames).getD [] ⊆ v.texts := by
    cases hschema : d.directives.get? .schema with
    | none => exact List.nil_subset _
    | some directive =>
      have texts := List.Subset.trans directive.typeNames_subset
        (Directives.textsIn_subset_of_get? hschema)
      exact List.Subset.trans texts (v.ownTexts declared)
  intro call hcall
  rcases Call.mem_ofDefinition hcall with
    ⟨-, -, t, ht, rfl⟩ | ⟨-, m, hm, -, rfl⟩ | ⟨m, hm, named⟩ | named
  · rw [Universe.lineage, Universe.substitute_composedParents] at ht
    obtain ⟨mem, params⟩ := within_lineageFrom (v := v) hu (fun t ht => by
      obtain ⟨written, composed⟩ := Universe.mem_composedParents ht
      exact ⟨v.parent declared written, composed⟩) t ht
    exact ⟨⟨v.speaks_none, mem, hview, params⟩, by rw [Call.steps]; omega⟩
  · rw [TypeRef.substitute_nil]
    refine ⟨⟨fun e he => ?_, v.memberType declared hm, hview⟩, Nat.le_refl _⟩
    cases he
    exact v.memberTexts declared hm
  · have texts := List.Subset.trans (Directives.typeNames_subset _) (v.memberTexts declared hm)
    exact within_named bare texts call named
  · exact within_named bare own call named

theorem within_ofRequest (bare : none ∈ views) {r : Request} (speaks : v.Speaks r.element)
    (ht : r.type ∈ v.types) (hview : r.scope.view ∈ views) :
    ∀ call ∈ Call.ofRequest r, call.Within v views ∧ call.steps v ≤ v.types.length + 2 := by
  intro call hcall
  rcases Call.mem_ofRequest hcall with rfl | ⟨e, element, named⟩
  · exact ⟨⟨speaks, ht, hview⟩, v.steps_le r.element r.type r.scope⟩
  · have texts := List.Subset.trans (Directives.typeNames_subset _) (speaks e element)
    exact within_named bare texts call named

end Vocabulary

end Schemata
