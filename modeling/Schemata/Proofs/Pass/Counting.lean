import Schemata.Proofs.Pass.Bounds
import Schemata.Proofs.Pass.Parts
import Schemata.Proofs.Pass.Trail

/-!
# Counts

Whether constraints count items or characters is decided by the schema that was found and by the
type with which an element is declared, although a directive or the configuration may have put
another in its place.  That a text is not blank is said of its characters whatever was found.
-/
namespace Schemata

open Pass

/-! ### Constraints that count -/

/-- Constraints on the number of items or characters. -/
def DirectiveKind.counts (kind : DirectiveKind) : Bool :=
  [DirectiveKind.notEmpty, .notBlank, .size].contains kind

namespace Facets

/-- The counts between which the facets keep a value. -/
def range (f : Facets) (counted : Counted) : Option Nat × Option Nat :=
  (f.least? counted, f.most? counted)

/-- The facets but for the counts. -/
def uncounted (f : Facets) : Facets :=
  { f with minItems := none, maxItems := none, minLength := none, maxLength := none }

theorem uncounted_constrain (f : Facets) (target : ConstraintTarget) (kind : DirectiveKind)
    (d : Directive) : (f.constrain target kind d).uncounted =
      if kind.counts then f.uncounted else f.uncounted.constrain target kind d := by
  cases kind with
  | min | decimalMin =>
    simp only [constrain, withLower_eq]
    rfl
  | max | decimalMax =>
    simp only [constrain, withUpper_eq]
    rfl
  | _ => cases target <;> rfl

/-- Constraints that count leave the rest of the facets alone. -/
theorem uncounted_constrainAll (f : Facets) (target : ConstraintTarget) (ds : Directives) :
    (f.constrainAll target ds).uncounted =
      f.uncounted.constrainAll target (ds.filter fun entry => !entry.1.counts) := by
  induction ds generalizing f with
  | nil => rfl
  | cons entry ds ih =>
    refine (ih _).trans ?_
    rw [uncounted_constrain, List.filter_cons]
    cases entry.1.counts <;> rfl

/-- Counts are left alone by constraints that count something else. -/
theorem range_constrainAll {target : ConstraintTarget} {ds : Directives} {counted : Counted}
    (other : ∀ entry ∈ ds, entry.1.least? entry.2 target counted = none ∧
      entry.1.most? entry.2 target counted = none) (f : Facets) :
    (f.constrainAll target ds).range counted = f.range counted := by
  have least : ds.leasts target counted = [] :=
    List.filterMap_eq_nil_iff.mpr fun entry mem => (other entry mem).1
  have most : ds.mosts target counted = [] :=
    List.filterMap_eq_nil_iff.mpr fun entry mem => (other entry mem).2
  simp [range, least?_constrainAll, most?_constrainAll, least, most]

end Facets

theorem DirectiveKind.least?_of_not_counts {kind : DirectiveKind} (h : kind.counts = false)
    (d : Directive) (target : ConstraintTarget) (counted : Counted) :
    kind.least? d target counted = none ∧ kind.most? d target counted = none := by
  cases kind <;> first | exact ⟨rfl, rfl⟩ | cases h

/-- But for texts that are not blank, constraints count what their target counts. -/
theorem DirectiveKind.least?_of_ne {kind : DirectiveKind} {target : ConstraintTarget}
    {counted : Counted} (other : counted ≠ target.counted)
    (blank : kind = .notBlank → counted ≠ .characters) (d : Directive) :
    kind.least? d target counted = none ∧ kind.most? d target counted = none := by
  cases kind with
  | notEmpty => exact ⟨if_neg other, rfl⟩
  | notBlank => exact ⟨if_neg (blank rfl), rfl⟩
  | size => exact ⟨if_neg other, if_neg other⟩
  | _ => exact ⟨rfl, rfl⟩

/-- The element without the constraints that count. -/
def Element.uncounted (e : Element) : Element :=
  { e with directives := e.directives.filter fun entry => !entry.1.counts }

theorem Element.directive?_uncounted {kind : DirectiveKind} (h : kind.counts = false)
    (e : Element) : e.uncounted.directive? kind = e.directive? kind :=
  Assoc.get?_filter fun _ => by simp [h]

theorem Element.has_uncounted {kind : DirectiveKind} (h : kind.counts = false)
    (e : Element) : e.uncounted.has kind = e.has kind :=
  congrArg Option.isSome (directive?_uncounted h e)

namespace Schema

/-- The schema but for the counts. -/
def uncounted (s : Schema) : Schema := { s with facets := s.facets.uncounted }

/-- With the directives of an element or without those that count, a schema has the same
constraints but for counts. -/
theorem uncounted_constrained (s : Schema) (target : ConstraintTarget) (e : Element) :
    (s.constrained target e.directives).uncounted =
      (s.constrained target e.uncounted.directives).uncounted := by
  have facets : (s.constrained target e.directives).facets.uncounted =
      (s.constrained target e.uncounted.directives).facets.uncounted := by
    rw [facets_constrained, facets_constrained, Facets.uncounted_constrainAll,
      Facets.uncounted_constrainAll, Element.uncounted, List.filter_filter]
    simp
  exact congrArg (fun f => { s with facets := f }) facets

/-- Constraints change counts of what their target counts, and those of characters if they say
that a text is not blank. -/
theorem eq_counted_of_range_ne {s : Schema} {target : ConstraintTarget} {e : Element}
    {counted : Counted} (h : (s.constrained target e.directives).facets.range counted ≠
      (s.constrained target e.uncounted.directives).facets.range counted) :
    counted = target.counted ∨ counted = .characters ∧ e.has .notBlank = true := by
  by_contra other
  obtain ⟨other, blank⟩ := not_or.mp other
  refine h ?_
  rw [facets_constrained, facets_constrained, Facets.range_constrainAll,
    Facets.range_constrainAll]
  · intro entry mem
    have kept := (List.mem_filter.mp mem).2
    exact DirectiveKind.least?_of_not_counts (by simpa using kept) ..
  · intro entry mem
    refine DirectiveKind.least?_of_ne other (fun notBlank characters => ?_) entry.2
    exact blank ⟨characters,
      (Assoc.contains_iff_mem_keys _ _).mpr (List.mem_map.mpr ⟨entry, mem, notBlank⟩)⟩

end Schema

/-- Literals are read the same whatever is counted. -/
theorem literalType_of_uncounted {s s' : Schema} (same : s.uncounted = s'.uncounted)
    (u : Universe) (r : Registry) (t : TypeRef) :
    literalType u r [s] t = literalType u r [s'] t := by
  have blind (s : Schema) : r.literalType? s.uncounted = r.literalType? s := by
    unfold Registry.literalType?
    cases h : s.isRef with
    | true => rw [show s.uncounted.isRef = true from h]; rfl
    | false => rw [show s.uncounted.isRef = false from h]; rfl
  have first : r.literalType? s = r.literalType? s' := by rw [← blind s, same, blind s']
  simp only [literalType, List.findSome?_cons, first]

namespace Compiler

variable {c : Compiler} {env : Environment} {e : Element} {t : TypeRef} {d s : Schema}
  {nullable : Bool} {p q : Pass}

theorem overlayStated_uncounted :
    c.overlayStated env s e.uncounted t = c.overlayStated env s e t := by
  unfold overlayStated
  rw [Element.directive?_uncounted rfl]
  rfl

theorem overlayStatedArray_uncounted :
    c.overlayStatedArray env s e.uncounted t = c.overlayStatedArray env s e t := by
  unfold overlayStatedArray
  rw [Element.directive?_uncounted rfl]

theorem default?_uncounted (e : Element) (l : LiteralType) (found : Option Json) :
    e.uncounted.default? l found = e.default? l found := by
  unfold Element.default? Element.defaultFrom
  rw [Element.directive?_uncounted rfl, Element.directive?_uncounted rfl]
  rfl

/-- Two schemas that differ in their counts alone, and where they may differ. -/
structure Recounts (e : Element) (target : ConstraintTarget) (s s' : Schema) : Prop where
  rest : s.uncounted = s'.uncounted
  counts : ∀ counted, s.facets.range counted ≠ s'.facets.range counted →
    counted = target.counted ∨ counted = .characters ∧ e.has .notBlank = true

namespace Recounts

variable {target : ConstraintTarget} {s' : Schema}

theorem eq_container (h : Recounts e target s s')
    (changed : s.facets.range .items ≠ s'.facets.range .items) : target = .container := by
  rcases h.counts _ changed with same | ⟨characters, -⟩
  · cases target with
    | container => rfl
    | value => cases same
  · cases characters

theorem eq_value_or_notBlank (h : Recounts e target s s')
    (changed : s.facets.range .characters ≠ s'.facets.range .characters) :
    target = .value ∨ e.has .notBlank = true := by
  rcases h.counts _ changed with same | ⟨-, notBlank⟩
  · cases target with
    | container => cases same
    | value => exact .inl rfl
  · exact .inr notBlank

end Recounts

theorem overlayAll_uncounted {target : ConstraintTarget}
    (h : Yields (c.overlayAll env d e t target []) p s q) :
    ∃ s', Yields (c.overlayAll env d e.uncounted t target []) p s' q ∧ Recounts e target s s' := by
  simp only [overlayAll, overlayStated_uncounted, overlayStatedArray_uncounted, yields_bind,
    yields_get, yields_noting, yields_pure] at h ⊢
  obtain ⟨first, _, stated, second, p', array, _, _, ⟨rfl, rfl⟩, value, _, noted, rfl, rfl⟩ := h
  have same := second.uncounted_constrained target e
  have before : (second.constrained target e.uncounted.directives).facets.defaultValue =
      (second.constrained target e.directives).facets.defaultValue :=
    congrArg (·.facets.defaultValue) same.symm
  refine ⟨_, ⟨first, _, stated, second, p', array, _, _, ⟨rfl, rfl⟩, value, _, ?_, rfl, rfl⟩,
    congrArg (fun s => { s with facets.defaultValue := value }) same,
    fun counted => Schema.eq_counted_of_range_ne⟩
  -- The default is read against a type and a format, neither of which is a count.
  rw [literalType_of_uncounted same.symm, default?_uncounted, before]
  exact noted

/-- Beside the schema that an element is bound to stands the one that it would be bound to without
the constraints that count. -/
theorem bind_uncounted (inline : d.isRef = false) (h : Yields (c.bind env e t d nullable) p s q) :
    ∃ s', Yields (c.bind env e.uncounted t d nullable) p s' q ∧
      Recounts e (Element.constraintTarget env p.registry t d) s s' := by
  obtain ⟨laid, overlaid, rfl⟩ := (yields_bind_of_not_isRef inline).mp h
  obtain ⟨laid', overlaid', recounts⟩ := overlayAll_uncounted overlaid
  refine ⟨_, (yields_bind_of_not_isRef inline).mpr ⟨laid', overlaid', rfl⟩, ?_⟩
  have null : e.uncounted.admitsNull nullable = e.admitsNull nullable := by
    unfold Element.admitsNull
    rw [Element.directive?_uncounted rfl]
  rw [null, Element.has_uncounted rfl]
  have finished (laid : Schema) : ({ laid with
      labels.deprecated := if e.has .deprecated then some true
        else laid.labels.deprecated }.nullableIf (e.admitsNull nullable)).uncounted =
      { laid.uncounted with
        labels.deprecated := if e.has .deprecated then some true
          else laid.uncounted.labels.deprecated }.nullableIf (e.admitsNull nullable) := by
    cases e.admitsNull nullable <;> rfl
  constructor
  · rw [finished, finished, recounts.rest]
  · intro counted changed
    refine recounts.counts counted fun same => changed ?_
    cases e.admitsNull nullable <;> exact same

end Compiler

/-! ### What was found -/

/-- Arrays of bytes are texts. -/
def Universe.isBytes (u : Universe) (t : TypeRef) : Bool :=
  match u.kindOf t with
  | .array element => u.primitiveOf? element == some .byte
  | _ => false

def Universe.isMap (u : Universe) (t : TypeRef) : Bool :=
  match u.kindOf t with
  | .map _ => true
  | _ => false

namespace Compiler

variable {env : Environment} {element : Option Element} {t : TypeRef} {s : Schema} {scope : Scope}
  {p q : Pass} {depth : Nat}

/-- What is written out: an array, what a map comes to, or else something that is neither, of a
type that is no container unless it is an array of bytes. -/
structure Holds (u : Universe) (t : TypeRef) (s : Schema) : Prop where
  map : s.isMap = true → u.isMap t = true
  array : u.isContainer t = true → s.isArray = true ∨ u.isMap t = true ∨ u.isBytes t = true

theorem Holds.of_array (u : Universe) (t : TypeRef) (items : Schema) :
    Holds u t (.array items) where
  map mapped := nomatch mapped
  array _ := .inl rfl

theorem Holds.of_isMap {u : Universe} (mapped : u.isMap t = true) (s : Schema) :
    Holds u t s where
  map _ := mapped
  array _ := .inr (.inl mapped)

theorem holds_of_opened {subject : String} (inline : s.isRef = false)
    (h : Yields ((ofDepth env depth).opened env subject element t scope) p (some s) q) :
    Holds env.types t s := by
  cases represents_of_yields h with
  | defined _ h =>
    rw [(writesOut_ofDepth env depth).define h] at inline
    cases inline
  | bytes kind bytes =>
    refine ⟨(nomatch ·), fun _ => .inr (.inr ?_)⟩
    simp [Universe.isBytes, kind, bytes]
  | list | untyped => exact .of_array ..
  | @value v kind =>
    have bare : (v.schema.used .value t.directives).isMap = false := by
      unfold Schema.used
      dsimp only
      split <;> rfl
    refine ⟨fun mapped => ?_, fun container => ?_⟩
    · rw [bare] at mapped
      cases mapped
    · simp [Universe.isContainer, kind] at container
  | map kind => exact .of_isMap (by simp [Universe.isMap, kind]) s

/-- Streams are arrays, and descriptions change nothing. -/
theorem holds_of_resolve {r : Resolved} (inline : r.schema.isRef = false)
    (h : Yields ((ofDepth env depth).resolve element t scope) p (some r) q) :
    Holds env.types (openOccurrence env element t).1.type r.schema := by
  obtain ⟨inner, -, occurs⟩ := yields_resolve_ofDepth h
  obtain ⟨found, opens, same⟩ := yields_occurrence.mp occurs
  obtain ⟨s, rfl, rfl⟩ := Option.map_eq_some_iff.mp same
  unfold wrapped streamed at inline ⊢
  dsimp only at inline ⊢
  split
  · exact .of_array ..
  · rename_i single
    rw [if_neg single] at inline
    unfold describedBy at inline ⊢
    split
    · rename_i bare
      rw [if_pos bare] at inline
      have plain : s.isRef = false := inline
      obtain ⟨map, array⟩ := holds_of_opened plain opens
      exact ⟨map, array⟩
    · rename_i described
      rw [if_neg described] at inline
      exact holds_of_opened inline opens

end Compiler

/-! ### Where counts land -/

namespace Element

variable {env : Environment} {e : Element} {t : TypeRef} {derived : Schema}

/-- The type that stands for an element once directives, wrappers and the configuration were looked
at. -/
def contentType (env : Environment) (e : Element) (t : TypeRef) : TypeRef :=
  (openOccurrence env (some e) t).1.type

/-- Whether items are what there is to count: the schema is that of an array, or it stems from a
map. -/
def HoldsItems (env : Environment) (e : Element) (t : TypeRef) (derived : Schema) : Prop :=
  derived.isArray = true ∨ env.types.isMap (e.contentType env t) = true

theorem holdsItems_or_of_holds (holds : Compiler.Holds env.types (e.contentType env t) derived) :
    e.HoldsItems env t derived ∨ env.types.isContainer (e.contentType env t) = false ∨
      env.types.isBytes (e.contentType env t) = true := by
  cases container : env.types.isContainer (e.contentType env t) with
  | false => exact .inr (.inl rfl)
  | true =>
    rcases holds.array container with isArray | isMap | isBytes
    · exact .inl (.inl isArray)
    · exact .inl (.inr isMap)
    · exact .inr (.inr isBytes)

theorem constraintTarget_eq_container_iff (env : Environment) (r : Registry) (t : TypeRef)
    (inline : derived.isRef = false) :
    constraintTarget env r t derived = .container ↔
      (derived.isArray = true ∨ derived.isMap = true) ∨
        env.types.isContainer (t.unwrapped env.types) = true := by
  simp only [constraintTarget, inline, Bool.false_eq_true, if_false, Option.any_some,
    ← Bool.or_eq_true]
  split <;> simp_all

/-- Where the constraints of an element land that count.  The schemas are that of the element and
the one that it would have without these constraints. -/
structure CountsLand (env : Environment) (e : Element) (t : TypeRef) (derived s s' : Schema) :
    Prop where
  rest : s.uncounted = s'.uncounted
  /-- Items are counted where there are items, or where something else or an array of bytes was put
  in the place of a container. -/
  items : s.facets.range .items ≠ s'.facets.range .items → e.HoldsItems env t derived ∨
    env.types.isContainer (t.unwrapped env.types) = true ∧
      (env.types.isContainer (e.contentType env t) = false ∨
        env.types.isBytes (e.contentType env t) = true)
  /-- Characters are counted where there are no items, or if a text is said not to be blank, or
  where a map whose keys are listed was put in the place of something else. -/
  characters : s.facets.range .characters ≠ s'.facets.range .characters →
    ¬ e.HoldsItems env t derived ∨ e.has .notBlank = true ∨
      env.types.isContainer (t.unwrapped env.types) = false ∧ derived.isMap = false ∧
        env.types.isMap (e.contentType env t) = true

end Element

namespace Pass

variable {env : Environment} {depth : Nat} {e : Element} {t : TypeRef} {scope : Scope}
  {r : Resolved} {s : Schema} {nullable : Bool} {p q p' q' : Pass}

/-- Only the built-in types are declared. -/
def builtIn : Environment := { types := Universe.initial .standard, config := {} }

/-- A member whose size is bounded. -/
def sized : Element := { name := "data", directives := [(.size, [("max", .num (.int 1024))])] }

/-- What is found for the member if it is declared with an array. -/
def foundSized (item : TypeRef) : PassM (Option Resolved) :=
  (Compiler.ofDepth builtIn 2).resolve (some sized) (.array item) {}

/-- What an element is bound to that is declared like the member. -/
def boundSized (item : TypeRef) (e : Element) (derived : Schema) : PassM Schema :=
  (Compiler.ofDepth builtIn 2).bind builtIn e (.array item) derived false

/-- Counts change what counts are about and nothing else; what they are about is as expected but
where the declared type is not what was found. -/
theorem countsLand_of_bind
    (resolved : Yields ((Compiler.ofDepth env depth).resolve (some e) t scope) p (some r) p')
    (inline : r.schema.isRef = false)
    (bound : Yields ((Compiler.ofDepth env depth).bind env e t r.schema nullable) q s q') :
    ∃ s', Yields ((Compiler.ofDepth env depth).bind env e.uncounted t r.schema nullable) q s' q' ∧
      e.CountsLand env t r.schema s s' := by
  obtain ⟨s', without, recounts⟩ := Compiler.bind_uncounted inline bound
  have holds : Compiler.Holds env.types (e.contentType env t) r.schema :=
    Compiler.holds_of_resolve inline resolved
  have container := Element.constraintTarget_eq_container_iff env q.registry t inline
  refine ⟨s', without, recounts.rest, fun changed => ?_, fun changed => ?_⟩
  · rcases container.mp (recounts.eq_container changed) with (isArray | isMap) | stated
    · exact .inl (.inl isArray)
    · exact .inl (.inr (holds.map isMap))
    · exact (Element.holdsItems_or_of_holds holds).imp_right fun other => ⟨stated, other⟩
  · rcases recounts.eq_value_or_notBlank changed with value | notBlank
    · have other := mt container.mpr (by rw [value]; exact ConstraintTarget.noConfusion)
      simp only [not_or, Bool.not_eq_true] at other
      obtain ⟨⟨notArray, notMap⟩, stated⟩ := other
      by_cases mapped : env.types.isMap (e.contentType env t) = true
      · exact .inr (.inr ⟨stated, notMap, mapped⟩)
      · exact .inl (by simp [Element.HoldsItems, notArray, mapped])
    · exact .inr (.inl notBlank)

/-- The items of an array of texts are counted. -/
theorem countsLand_of_bind_texts : ∃ r s,
    Yields (foundSized (.plain "string")) {} (some r)
        (stateAfter (foundSized (.plain "string")) {}) ∧
      r.schema.isRef = false ∧
      Yields (boundSized (.plain "string") sized r.schema) {} s
        (stateAfter (boundSized (.plain "string") sized r.schema) {}) ∧
      s.facets.range .items = (none, some 1024) ∧
      ∃ s', Yields (boundSized (.plain "string") sized.uncounted r.schema) {} s'
          (stateAfter (boundSized (.plain "string") sized r.schema) {}) ∧
        sized.CountsLand builtIn (.array (.plain "string")) r.schema s s' := by
  have found : passes (foundSized (.plain "string")) {} (fun found => found.any fun r =>
      !r.schema.isRef && passes (boundSized (.plain "string") sized r.schema) {}
        fun s => s.facets.range .items == (none, some 1024)) = true := by
    decide +kernel
  obtain ⟨found, resolved, holds⟩ := exists_of_passes found
  obtain ⟨r, rfl, holds⟩ := (Option.any_eq_true _ _).mp holds
  obtain ⟨inline, bounded⟩ := Bool.and_eq_true_iff.mp holds
  obtain ⟨s, bound, items⟩ := exists_of_passes bounded
  have inline : r.schema.isRef = false := by simpa using inline
  exact ⟨r, s, resolved, inline, bound, beq_iff_eq.mp items,
    countsLand_of_bind resolved inline bound⟩

/-- Items are counted in arrays and in what stems from maps, characters in anything else. -/
def CountsAsHeld (env : Environment) : Prop :=
  ∀ depth e t scope p r p' nullable q s q₁ s' q₂,
    Yields ((Compiler.ofDepth env depth).resolve (some e) t scope) p (some r) p' →
      r.schema.isRef = false →
      Yields ((Compiler.ofDepth env depth).bind env e t r.schema nullable) q s q₁ →
      Yields ((Compiler.ofDepth env depth).bind env e.uncounted t r.schema nullable) q s' q₂ →
      (s.facets.range .items ≠ s'.facets.range .items → e.HoldsItems env t r.schema) ∧
        (s.facets.range .characters ≠ s'.facets.range .characters →
          ¬ e.HoldsItems env t r.schema)

/-- An array of bytes is a text that is said to have at most so many items. -/
theorem not_countsAsHeld_bytes : ¬ CountsAsHeld builtIn := by
  intro held
  have found : passes (foundSized (.plain "byte")) {} (fun found => found.any fun r =>
      !r.schema.isRef && !r.schema.isArray && passes (boundSized (.plain "byte") sized r.schema) {}
        fun s => passes (boundSized (.plain "byte") sized.uncounted r.schema) {}
          fun s' => s.facets.range .items != s'.facets.range .items) = true := by
    decide +kernel
  obtain ⟨found, resolved, holds⟩ := exists_of_passes found
  obtain ⟨r, rfl, holds⟩ := (Option.any_eq_true _ _).mp holds
  obtain ⟨shape, bounded⟩ := Bool.and_eq_true_iff.mp holds
  obtain ⟨inline, noArray⟩ := Bool.and_eq_true_iff.mp shape
  obtain ⟨s, bound, changes⟩ := exists_of_passes bounded
  obtain ⟨s', unbound, changes⟩ := exists_of_passes changes
  have noMap :
      builtIn.types.isMap (sized.contentType builtIn (.array (.plain "byte"))) = false := by
    decide +kernel
  have inline : r.schema.isRef = false := by simpa using inline
  rcases (held _ _ _ _ _ _ _ _ _ _ _ _ _ resolved inline bound unbound).1
    (bne_iff_ne.mp changes) with isArray | isMap
  · simp [isArray] at noArray
  · rw [noMap] at isMap
    cases isMap

end Pass

end Schemata
