import Schemata.Proofs.Directive.Literals
import Schemata.Proofs.Pass.Layers
import Schemata.Proofs.Pass.Marks

/-!
# Literals of a bound schema

The literals of an element are read against the type of the schema that its directives are laid
over.  The text of an example or of a default conforms to that type or is reported and kept,
exactly if canonical form left it a text.
-/
namespace Schemata

open Pass

/-! ### Slots -/

namespace LiteralSlot

variable (slot : LiteralSlot)

theorem value?_withLiterals (f : Facets) (d : Directive) (l : LiteralType) (subject : String) :
    slot.value? (f.withLiterals d l subject).1 =
      ((d.get? slot.key).bind fun value => (l.literal subject value).1).or (slot.value? f) := by
  cases slot with
  | exampleValue =>
    simp only [value?, key, Facets.withLiterals]
    cases d.get? "example" <;> rfl
  | defaultValue =>
    simp only [value?, key, Facets.withLiterals]
    cases d.get? "default" <;> rfl

/-- What is noted of a literal is noted of its directive. -/
theorem subset_withLiterals (f : Facets) {d : Directive} {value : Json} (l : LiteralType)
    (subject : String) (stated : d.get? slot.key = some value) :
    (l.literal subject value).2 ⊆ (f.withLiterals d l subject).2 := by
  intro noted hnoted
  cases slot with
  | exampleValue =>
    have stated : d.get? "example" = some value := stated
    simp [Facets.withLiterals, stated, hnoted]
  | defaultValue =>
    have stated : d.get? "default" = some value := stated
    simp [Facets.withLiterals, stated, hnoted]

theorem value?_overlaid (f : Facets) (d : Directive) :
    slot.value? (f.overlaid d) = slot.value? f := by
  cases slot <;> rfl

theorem value?_constrain (target : ConstraintTarget) (f : Facets) (kind : DirectiveKind)
    (d : Directive) : slot.value? (f.constrain target kind d) = slot.value? f := by
  cases kind with
  | min | decimalMin => rw [Facets.constrain, Facets.withLower_eq]; cases slot <;> rfl
  | max | decimalMax => rw [Facets.constrain, Facets.withUpper_eq]; cases slot <;> rfl
  | _ => cases target <;> cases slot <;> rfl

theorem value?_constrained (s : Schema) (target : ConstraintTarget) (ds : Directives) :
    slot.value? (s.constrained target ds).facets = slot.value? s.facets :=
  s.constrained_of_constrain (slot.value?_constrain target) ds

end LiteralSlot

/-! ### Noted diagnostics -/

namespace Pass

/-- A diagnostic is noted between two states. -/
def Notes (p q : Pass) (d : Diagnostic) : Prop :=
  ∃ noted, q.diagnostics = p.diagnostics ++ noted ∧ d ∈ noted

variable {p p' q q' : Pass} {d : Diagnostic}

theorem notes_withDiagnostics {ds : Diagnostics} (h : d ∈ ds) : Notes p (p.withDiagnostics ds) d :=
  ⟨ds, rfl, h⟩

theorem Notes.within (h : Notes p' q' d) (before : Grows p p') (later : Grows q' q) :
    Notes p q d := by
  obtain ⟨noted, same, hd⟩ := h
  obtain ⟨first, hfirst⟩ := before.diagnostics
  obtain ⟨last, hlast⟩ := later.diagnostics
  refine ⟨first ++ noted ++ last, ?_, by simp [hd]⟩
  rw [← hlast, same, ← hfirst]
  simp

end Pass

/-! ### Laying directives over schemas -/

namespace Directive

/-- Whether the directive says what kind of values a schema has, or refers to one that does. -/
def retypes (d : Directive) : Bool :=
  d.statedType?.isSome || (d.text? "format").isSome || (d.text? "$ref").isSome

/-- Whether the directive states a literal in canonical form; an empty text is none. -/
def states (d : Directive) (slot : LiteralSlot) : Bool :=
  match d.get? slot.key with
  | none => false
  | some (.str text) => text != ""
  | some _ => true

theorem retypes_eq_false_iff {d : Directive} : d.retypes = false ↔
    d.statedType? = none ∧ d.text? "format" = none ∧ d.text? "$ref" = none := by
  simp [retypes, and_assoc]

/-- Nothing is read where no literal is stated. -/
theorem literal_of_not_states {d : Directive} {slot : LiteralSlot} (h : d.states slot = false)
    (l : LiteralType) (subject : String) :
    ((d.get? slot.key).bind fun value => (l.literal subject value).1) = none := by
  unfold states at h
  split at h
  · rename_i absent
    rw [absent, Option.bind_none]
  · rename_i text stated
    obtain rfl : text = "" := by simpa using h
    rw [stated]
    rfl
  · cases h

end Directive

namespace Element

/-- Whether a directive of the element says what kind of values its schema has. -/
def retypes (e : Element) : Bool :=
  (e.directive? .schema).any Directive.retypes || (e.directive? .arraySchema).any Directive.retypes

variable {e : Element} {d : Directive}

theorem retypes_of_schema (h : e.retypes = false) (hd : e.directive? .schema = some d) :
    d.retypes = false := by
  rw [retypes, hd, Bool.or_eq_false_iff] at h
  exact h.1

theorem retypes_of_arraySchema (h : e.retypes = false) (hd : e.directive? .arraySchema = some d) :
    d.retypes = false := by
  rw [retypes, hd, Bool.or_eq_false_iff] at h
  exact h.2

end Element

/-- A schema that is written out, with its type and format. -/
structure Schema.IsOf (s : Schema) (type : SchemaType) (format : Option String) : Prop where
  inline : s.isRef = false
  type : s.type = some type
  format : s.facets.format = format

namespace Schema

variable {s : Schema} {d : Directive} {type : SchemaType} {format : Option String}

theorem IsOf.overlaid (h : s.IsOf type format) (kept : d.retypes = false) (detached : Bool)
    (subject : String) : (s.overlaid d detached subject).1.IsOf type format := by
  obtain ⟨untyped, unformatted, unreferred⟩ := Directive.retypes_eq_false_iff.mp kept
  have inline := h.inline
  refine ⟨?_, ?_, ?_⟩
  · simpa [Schema.overlaid, Schema.isRef, unreferred] using inline
  · simpa [Schema.overlaid, Schema.overlaidType_fst, untyped] using h.type
  · simpa [Schema.overlaid, Facets.overlaid, unformatted] using h.format

end Schema

namespace Compiler

variable {env : Environment} {depth : Nat} {element : Option Element} {t : TypeRef} {p q : Pass}
  {s laid : Schema} {d : Directive} {type : SchemaType} {format : Option String}

theorem literalType_of_isOf (u : Universe) (r : Registry) (fallback : List Schema)
    (h : s.IsOf type format) : literalType u r (s :: fallback) t = ⟨some type, format⟩ := by
  have found : r.literalType? s = some ⟨some type, format⟩ := by
    simp [Registry.literalType?, h.inline, h.type, h.format]
  simp only [literalType, List.findSome?_cons, found]

theorem isOf_overlay (h : s.IsOf type format) (kept : d.retypes = false)
    (hm : Yields ((ofDepth env depth).overlay env s d element t) p laid q) :
    laid.IsOf type format := by
  obtain ⟨untyped, unformatted, unreferred⟩ := Directive.retypes_eq_false_iff.mp kept
  have effect := Layers.overlaid_of_yields hm
  obtain ⟨_, same⟩ := facets_overlay hm
  refine ⟨?_, ?_, ?_⟩
  · rw [Schema.isRef, effect.ref, unreferred, Option.none_or]
    exact h.inline
  · rw [effect.type, untyped, Option.none_or, h.type]
  · rw [same]
    simpa [Facets.withLiterals, Facets.overlaid, unformatted] using h.format

/-- The literal that a directive states takes the place of what was there. -/
theorem value?_overlay (slot : LiteralSlot) (h : s.IsOf type format) (kept : d.retypes = false)
    (hm : Yields ((ofDepth env depth).overlay env s d element t) p laid q) :
    slot.value? laid.facets = ((d.get? slot.key).bind fun value =>
      (LiteralType.literal ⟨some type, format⟩ (subjectOf element t) value).1).or
        (slot.value? s.facets) := by
  obtain ⟨_, same⟩ := facets_overlay hm
  have read := literalType_of_isOf (t := t) env.types p.registry []
    (h.overlaid kept (!(element.any Element.isMember)) (subjectOf element t))
  rw [read] at same
  have bare : slot.value? laid.facets = slot.value? ((s.facets.overlaid d).withLiterals d
      ⟨some type, format⟩ (subjectOf element t)).1 := by
    rw [same]
    cases slot <;> rfl
  rw [bare, slot.value?_withLiterals, slot.value?_overlaid]

/-- All that comes after the literals lets a pass grow. -/
theorem notes_of_overlay {slot : LiteralSlot} {value : Json} {noted : Diagnostic}
    (h : s.IsOf type format) (kept : d.retypes = false) (stated : d.get? slot.key = some value)
    (hnoted : noted ∈ (LiteralType.literal ⟨some type, format⟩ (subjectOf element t) value).2)
    (hm : Yields ((ofDepth env depth).overlay env s d element t) p laid q) : Notes p q noted := by
  have hc (call : Call) := Trail.pairs ((frame_grows env).ofDepth depth call)
  have pairing := (frame_grows env).course.trail.pairing
  simp only [Compiler.overlay, yields_bind, yields_noting, yields_get] at hm
  obtain ⟨_, _, ⟨rfl, rfl⟩, _, _, ⟨rfl, rfl⟩, _, _, ⟨rfl, rfl⟩, s₁, _, discriminated, s₂, _,
    additional, s₃, _, excluded, hm⟩ := hm
  have grows₁ : Grows _ _ := (pairing.withDiscriminator fun call _ => hc call).yields discriminated
  have grows₂ : Grows _ _ := (pairing.withAdditional fun call _ => hc call).yields additional
  have grows₃ : Grows _ _ := (pairing.withNot fun call _ => hc call).yields excluded
  have grows₄ : Grows _ _ := (pairing.withAlternatives fun call _ => hc call).yields hm
  have read := literalType_of_isOf (t := t) env.types p.registry []
    (h.overlaid kept (!(element.any Element.isMember)) (subjectOf element t))
  rw [← read] at hnoted
  refine (notes_withDiagnostics ?_).within (Grows.report p _)
    (grows₁.trans (grows₂.trans (grows₃.trans grows₄)))
  exact slot.subset_withLiterals _ _ _ stated hnoted

/-! ### Literals that are left alone -/

/-- A directive leaves a literal where it states none of its own. -/
theorem value?_overlay_of_not_states {c : Compiler} (slot : LiteralSlot)
    (unstated : d.states slot = false) (hm : Yields (c.overlay env s d element t) p laid q) :
    slot.value? laid.facets = slot.value? s.facets := by
  obtain ⟨_, same⟩ := facets_overlay hm
  have bare : slot.value? laid.facets = slot.value? ((s.facets.overlaid d).withLiterals d
      (literalType env.types p.registry
        [(s.overlaid d (!(element.any Element.isMember)) (subjectOf element t)).1] t)
      (subjectOf element t)).1 := by
    rw [same]
    cases slot <;> rfl
  rw [bare, slot.value?_withLiterals, slot.value?_overlaid,
    Directive.literal_of_not_states unstated, Option.none_or]

/-- So does an array directive. -/
theorem value?_overlayArray_of_not_states {c : Compiler} (slot : LiteralSlot)
    (unstated : d.states slot = false) (hm : Yields (c.overlayArray env s d t) p laid q) :
    slot.value? laid.facets = slot.value? s.facets := by
  obtain ⟨s', _, overlaid, hm⟩ := yields_bind.mp hm
  rw [← value?_overlay_of_not_states slot unstated overlaid]
  split at hm
  · obtain ⟨rfl, -⟩ := yields_pure.mp hm
    cases slot <;> rfl
  · obtain ⟨_, rfl⟩ := exists_of_overlayItems hm
    cases slot <;> rfl

/-! ### Array directives -/

theorem isOf_overlayItems {items : Directive} (h : s.IsOf type format)
    (hm : Yields ((ofDepth env depth).overlayItems env s items t) p laid q) :
    laid.IsOf type format := by
  obtain ⟨_, rfl⟩ := exists_of_overlayItems hm
  exact ⟨h.inline, h.type, h.format⟩

theorem isOf_overlayArray (h : s.IsOf type format) (kept : d.retypes = false)
    (hm : Yields ((ofDepth env depth).overlayArray env s d t) p laid q) :
    laid.IsOf type format := by
  obtain ⟨s', _, overlaid, hm⟩ := yields_bind.mp hm
  have typed := isOf_overlay h kept overlaid
  have counted (f : Facets) (same : f.format = s'.facets.format) :
      Schema.IsOf { s' with facets := f } type format :=
    ⟨typed.inline, typed.type, same.trans typed.format⟩
  split at hm
  · obtain ⟨rfl, -⟩ := yields_pure.mp hm
    exact counted _ rfl
  · exact isOf_overlayItems (counted _ (by rfl)) hm

/-! ### The directives of an element -/

variable {e : Element} {slot : LiteralSlot} {value read : Json}

/-- A literal that the schema directive of an element states, and no array directive, is the one
that is left in the end. -/
theorem value?_overlayAll {target : ConstraintTarget} {fallback : List Schema}
    (h : s.IsOf type format) (stated : e.directive? .schema = some d)
    (literal : d.get? slot.key = some value)
    (hread : (LiteralType.literal ⟨some type, format⟩ e.subject value).1 = some read)
    (kept : e.retypes = false) (alone : (e.directive? .arraySchema).any (·.states slot) = false)
    (hm : Yields ((ofDepth env depth).overlayAll env s e t target fallback) p laid q) :
    laid.type = some type ∧ slot.value? laid.facets = some read ∧
      ∀ noted ∈ (LiteralType.literal ⟨some type, format⟩ e.subject value).2, Notes p q noted := by
  obtain ⟨s₁, p₁, s₂, p₂, first, array, _, rfl, rfl, rfl⟩ := yields_overlayAll.mp hm
  rw [overlayStated, stated] at first
  have kept₁ := Element.retypes_of_schema kept stated
  have typed₁ := isOf_overlay h kept₁ first
  have value₁ : slot.value? s₁.facets = some read := by
    have laid := value?_overlay slot h kept₁ first
    rw [literal, Option.bind_some] at laid
    exact laid.trans (by rw [show subjectOf (some e) t = e.subject from rfl, hread, Option.some_or])
  have second : s₂.IsOf type format ∧ slot.value? s₂.facets = some read ∧ Grows p₁ p₂ := by
    rcases overlayStatedArray_cases array with ⟨d', hd', array⟩ | ⟨-, rfl, rfl⟩
    · rw [hd', Option.any_some] at alone
      have typed₂ := isOf_overlayArray typed₁ (Element.retypes_of_arraySchema kept hd') array
      have value₂ := value?_overlayArray_of_not_states slot alone array
      have grows : Grows p₁ p₂ := ((frame_grows env).course.trail.pairing.overlayArray (.refl env)
        fun call _ => Trail.pairs ((frame_grows env).ofDepth depth call)).yields array
      exact ⟨typed₂, value₂.trans value₁, grows⟩
    · exact ⟨typed₁, value₁, .refl _⟩
  obtain ⟨typed₂, value₂, grows⟩ := second
  have value₃ := slot.value?_constrained s₂ target e.directives
  rw [value₂] at value₃
  refine ⟨typed₂.type, ?_, fun noted hnoted => ?_⟩
  · cases slot with
    | exampleValue => exact value₃
    | defaultValue =>
      have found : (s₂.constrained target e.directives).facets.defaultValue = some read := value₃
      simp only [LiteralSlot.value?, Element.default?, found]
  · exact (notes_of_overlay h kept₁ literal hnoted first).within (.refl p)
      (grows.trans (Grows.report _ _))

theorem value?_bind {derived : Schema} {nullable : Bool} (h : derived.IsOf type format)
    (stated : e.directive? .schema = some d) (literal : d.get? slot.key = some value)
    (hread : (LiteralType.literal ⟨some type, format⟩ e.subject value).1 = some read)
    (kept : e.retypes = false) (alone : (e.directive? .arraySchema).any (·.states slot) = false)
    (hm : Yields ((ofDepth env depth).bind env e t derived nullable) p s q) :
    s.type = some type ∧ slot.value? s.facets = some read ∧
      ∀ noted ∈ (LiteralType.literal ⟨some type, format⟩ e.subject value).2, Notes p q noted := by
  obtain ⟨bound, overlaid, rfl⟩ := (yields_bind_of_not_isRef h.inline).mp hm
  obtain ⟨typed, value, noted⟩ := value?_overlayAll h stated literal hread kept alone overlaid
  refine ⟨?_, ?_, noted⟩
  · unfold Schema.nullableIf
    split <;> exact typed
  · unfold Schema.nullableIf
    split <;> exact value

end Compiler

/-- What is left of the text of a literal after a step: a value of the type, or else the text, which
is reported.  Texts without a format are left as they are. -/
def SettlesText (slot : LiteralSlot) (l : LiteralType) (subject text : String) (p q : Pass)
    (s : Schema) : Prop :=
  ∃ value, slot.value? s.facets = some value ∧
    (l.admits value = true ∨
      value = .str text ∧ ∃ message, Notes p q (.coercionFailed subject text message)) ∧
    (l = ⟨some .string, none⟩ → value = .str text)

/-- An example or a default of a text, an integer or a truth value is settled exactly if canonical
form does not turn its text into a list or an object, whether or not that has anything to do with
the type. -/
theorem settlesText_iff_of_bind {env : Environment} {depth : Nat} {e : Element} {t : TypeRef}
    {derived s : Schema} {nullable : Bool} {p q : Pass} {raws : Directives} {d : Directive}
    {slot : LiteralSlot} {text : String} {type : SchemaType}
    (canonical : e.directives = Normalizer.standard.normalizeAll raws) (settled : raws.IsSettled)
    (stated : raws.get? .schema = some d) (written : slot.written d = some (.str text))
    (nonempty : text ≠ "") (inline : derived.isRef = false) (typed : derived.type = some type)
    (scalar : type ∈ [.string, .integer, .boolean])
    (kept : e.retypes = false) (alone : (e.directive? .arraySchema).any (·.states slot) = false)
    (hm : Yields ((Compiler.ofDepth env depth).bind env e t derived nullable) p s q) :
    s.type = some type ∧
      (SettlesText slot ⟨some type, derived.facets.format⟩ e.subject text p q s ↔
        Canonical.structured (.str text) = .str text) := by
  have ofType : derived.IsOf type derived.facets.format := ⟨inline, typed, rfl⟩
  have distinct := (settled.members _ (Assoc.mem_of_get? stated)).distinct
  have directive : e.directive? .schema = some (Canonical.schema d) := by
    rw [Element.directive?, canonical, Directives.get?_normalizeAll, stated]
    rfl
  have literal : (Canonical.schema d).get? slot.key = some (Canonical.structured (.str text)) := by
    rw [Canonical.get?_schema_literal slot distinct, written, Option.map_some]
  by_cases left : Canonical.structured (.str text) = .str text
  · rw [left] at literal
    obtain ⟨value, read, settles⟩ := LiteralType.settles_literal
      (l := ⟨some type, derived.facets.format⟩) e.subject nonempty
    obtain ⟨typed', found, noted⟩ :=
      Compiler.value?_bind ofType directive literal read kept alone hm
    refine ⟨typed', iff_of_true ⟨value, found, ?_, fun plain => ?_⟩ left⟩
    · exact settles.imp_right fun kept => ⟨kept.1, kept.2.imp fun message => noted _⟩
    · rw [LiteralType.literal_of_plain plain nonempty] at read
      exact (Option.some.inj read).symm
  · have composite := Canonical.isComposite_structured left
    have read := LiteralType.literal_of_isComposite (l := ⟨some type, derived.facets.format⟩)
      e.subject composite
    obtain ⟨typed', found, -⟩ := Compiler.value?_bind ofType directive literal
      (congrArg Prod.fst read) kept alone hm
    refine ⟨typed', iff_of_false ?_ left⟩
    rintro ⟨value, hvalue, admitted | ⟨same, -⟩, -⟩
    · obtain rfl := Option.some.inj (found.symm.trans hvalue)
      rw [LiteralType.not_admits_of_isComposite scalar rfl composite] at admitted
      cases admitted
    · obtain rfl := Option.some.inj (found.symm.trans hvalue)
      exact left same

/-- The text of a note, with an example of it. -/
def noteText (sample : String) : Element where
  name := "text"
  directives := Normalizer.standard.normalizeAll [(.schema, [("example", .str sample)])]

/-- What the example is bound to. -/
def boundNote (sample : String) : PassM Schema :=
  (Compiler.ofDepth ⟨Universe.initial .standard, {}⟩ 1).bind ⟨Universe.initial .standard, {}⟩
    (noteText sample) (.plain "string") (.typed .string) false

theorem settlesText_iff_of_bind_note : ∃ s q, Yields (boundNote "see [1]") {} s q ∧
    s.type = some .string ∧
    (SettlesText .exampleValue ⟨some .string, none⟩ "text" "see [1]" {} q s ↔
      Canonical.structured (.str "see [1]") = .str "see [1]") := by
  have runs : passes (boundNote "see [1]") {} (fun _ => true) = true := by decide +kernel
  obtain ⟨s, bound, -⟩ := exists_of_passes runs
  refine ⟨s, _, bound, ?_⟩
  have settled : Directives.IsSettled [(.schema, [("example", .str "see [1]")])] :=
    ⟨by decide, List.forall_mem_singleton.mpr rfl⟩
  exact settlesText_iff_of_bind rfl settled rfl rfl (by decide) rfl rfl (by decide) (by decide)
    (by decide) bound

/-- A reference in brackets is taken for a list. -/
theorem not_settlesText_note : ∃ s q, Yields (boundNote "[1]") {} s q ∧ s.type = some .string ∧
    ¬ SettlesText .exampleValue ⟨some .string, none⟩ "text" "[1]" {} q s := by
  have runs : passes (boundNote "[1]") {} (fun s =>
      s.type == some .string && s.facets.exampleValue.any Json.isComposite) = true := by
    decide +kernel
  obtain ⟨s, bound, found⟩ := exists_of_passes runs
  simp only [Bool.and_eq_true, beq_iff_eq, Option.any_eq_true] at found
  obtain ⟨typed, listed, stored, composite⟩ := found
  refine ⟨s, _, bound, typed, ?_⟩
  rintro ⟨value, hvalue, -, plain⟩
  obtain rfl := Option.some.inj (stored.symm.trans hvalue)
  rw [plain rfl] at composite
  cases composite

end Schemata
