import Schemata.Proofs.Pass.Decoration
import Schemata.Proofs.Pass.Defaults

/-!
# Two ways to state a default

A default may stand in the schema directive of an element or beside its serialized name.  The first
is read against what is laid over the type, which says nothing of a reference, the second against
what the reference points to as well.  So the two agree on what is written out, and over a reference
only if both read the text in the same way.
-/
namespace Schemata

open Pass

/-! ### Directives that state a default -/

namespace Directive

/-- A directive that states nothing but a default. -/
def defaulting (text : String) : Directive := [("default", .str text)]

theorem get?_defaulting (text key : String) :
    (defaulting text).get? key = if "default" = key then some (.str text) else none := rfl

end Directive

namespace Element

variable (e : Element) (kind other : DirectiveKind) (text : String)

/-- The element with one more directive that states nothing but a default. -/
def stating : Element :=
  { e with directives := e.directives ++ [(kind, Directive.defaulting text)] }

/-- An element without any directive that may state a default. -/
def IsQuiet : Prop :=
  ∀ kind ∈ [DirectiveKind.schema, .arraySchema, .bindable, .jsonProperty], e.directive? kind = none

theorem directive?_stating : (e.stating kind text).directive? other =
    (e.directive? other).or (if kind = other then some (Directive.defaulting text) else none) :=
  Assoc.get?_append _ _ _

theorem has_stating (different : kind ≠ other) :
    (e.stating kind text).has other = e.has other := by
  have same : (e.stating kind text).directives.get? other = e.directives.get? other := by
    rw [stating, Assoc.get?_append, Assoc.get?_cons, if_neg different, Assoc.get?_nil,
      Option.or_none]
  simp only [Element.has, Directives.has, Assoc.contains, same]

theorem constrained_stating (s : Schema) (target : ConstraintTarget)
    (unbounding : kind.isConstraint = false) :
    s.constrained target (e.stating kind text).directives = s.constrained target e.directives := by
  have same : (e.stating kind text).directives.constraints = e.directives.constraints := by
    simp [Directives.constraints, stating, unbounding]
  rw [Schema.constrained, same, Schema.constrained]

end Element

/-! ### Constraints -/

/-- Constraints say nothing of a default. -/
theorem Facets.constrain_withDefault (target : ConstraintTarget) (f : Facets) (kind : DirectiveKind)
    (d : Directive) (value : Option Json) :
    { f with defaultValue := value }.constrain target kind d =
      { f.constrain target kind d with defaultValue := value } := by
  cases kind with
  | min | decimalMin => rw [constrain, constrain, withLower_eq, withLower_eq]
  | max | decimalMax => rw [constrain, constrain, withUpper_eq, withUpper_eq]
  | _ => cases target <;> rfl

theorem Schema.constrained_withDefault (s : Schema) (target : ConstraintTarget) (ds : Directives)
    (value : Option Json) :
    { s with facets.defaultValue := value }.constrained target ds =
      { s.constrained target ds with facets.defaultValue := value } := by
  unfold constrained
  generalize ds.constraints = constraints
  have folded (f : Facets) :
      constraints.foldl (fun f entry => f.constrain target entry.1 entry.2)
          { f with defaultValue := value } =
        { constraints.foldl (fun f entry => f.constrain target entry.1 entry.2) f with
          defaultValue := value } := by
    induction constraints generalizing f with
    | nil => rfl
    | cons entry rest ih =>
      rw [List.foldl_cons, Facets.constrain_withDefault, ih, List.foldl_cons]
  exact congrArg (fun facets => { s with facets := facets }) (folded s.facets)

/-! ### Laying a default over a schema -/

theorem Schema.overlaid_defaulting (s : Schema) (text : String) (detached : Bool)
    (subject : String) : s.overlaid (Directive.defaulting text) detached subject = (s, []) := by
  have labels : s.labels.overlaid (Directive.defaulting text) detached = s.labels := by
    cases detached <;> simp [Labels.overlaid, Directive.text?, Directive.raised, Directive.flag?,
      Directive.section?, Directive.get?_defaulting]
  have facets : s.facets.overlaid (Directive.defaulting text) = s.facets := by
    simp [Facets.overlaid, Directive.text?, Directive.number?, Directive.count?, Directive.raised,
      Directive.flag?, Directive.get?_defaulting]
  have type : s.overlaidType (Directive.defaulting text) subject = (s.type, []) := by
    simp [overlaidType, Directive.text?, Directive.get?_defaulting]
  have ref : (Directive.defaulting text).text? "$ref" = none := by
    simp [Directive.text?, Directive.get?_defaulting]
  have required : (Directive.defaulting text).texts "requiredProperties" = [] := by
    simp [Directive.texts, Directive.get?_defaulting]
  simp only [overlaid, type, labels, facets, ref, required, Option.none_or, List.foldl_nil]
  cases s
  rfl

/-- The default takes the place of what was there, if the text is read as anything. -/
theorem Schema.withLiterals_defaulting (env : Environment) (r : Registry) (s : Schema)
    (text subject : String) (t : TypeRef) :
    s.withLiterals env r (Directive.defaulting text) subject t =
      ({ s with
          facets.defaultValue := ((literalType env.types r [s] t).literal subject
            (.str text)).1.or s.facets.defaultValue },
        ((literalType env.types r [s] t).literal subject (.str text)).2) := by
  simp [withLiterals, Facets.withLiterals, Directive.get?_defaulting]

theorem Compiler.withExtensions_defaulting (s : Schema) (text : String) :
    withExtensions s (Directive.defaulting text) = s := by
  have extensions : (Directive.defaulting text).section? "extensions" = none := by
    simp [Directive.section?, Directive.get?_defaulting]
  simp only [withExtensions, extensions, Option.getD_none, List.foldl_nil]
  cases s
  rfl

namespace Compiler

variable {c : Compiler} {env : Environment} {e : Element} {t : TypeRef} {p q : Pass}
  {s laid : Schema} {text : String}

/-- A directive that states nothing but a default reads it against the type of the schema. -/
theorem yields_overlay_defaulting :
    Yields (c.overlay env s (Directive.defaulting text) (some e) t) p laid q ↔
      ∃ found, (literalType env.types p.registry [s] t).literal e.subject (.str text) = found ∧
        { s with facets.defaultValue := found.1.or s.facets.defaultValue } = laid ∧
        p.withDiagnostics found.2 = q := by
  have named (subject : String) : c.allNamed subject [] = pure [] := rfl
  simp only [overlay, Schema.overlaid_defaulting, Schema.withLiterals_defaulting,
    withExtensions_defaulting, withDiscriminator, withAdditional, withNot, withAlternatives, named,
    Directive.section?, Directive.text?, Directive.texts, Directive.get?_defaulting,
    String.reduceEq, if_false, List.foldl_nil, pure_bind, yields_bind, yields_noting, yields_get,
    yields_pure, List.append_nil]
  constructor
  · rintro ⟨_, _, ⟨rfl, rfl⟩, _, _, ⟨rfl, rfl⟩, _, _, ⟨rfl, rfl⟩, rfl, rfl⟩
    exact ⟨_, rfl, rfl, rfl⟩
  · rintro ⟨_, rfl, rfl, rfl⟩
    exact ⟨_, _, ⟨rfl, rfl⟩, _, _, ⟨rfl, rfl⟩, _, _, ⟨rfl, rfl⟩, rfl, rfl⟩

end Compiler

/-! ### Binding a default -/

namespace LiteralType

/-- The value of a text, unless there is another one already. -/
def literalUnless (l : LiteralType) (subject text : String) :
    Option Json → Option Json × Diagnostics
  | some value => (some value, [])
  | none => l.literal subject (.str text)

theorem isSome_literalUnless (l : LiteralType) (subject : String) {text : String}
    (nonempty : text ≠ "") (found : Option Json) :
    (l.literalUnless subject text found).1.isSome := by
  cases found with
  | none =>
    obtain ⟨value, read, -⟩ := l.settles_literal subject nonempty
    exact Option.isSome_of_eq_some read
  | some value => rfl

end LiteralType

/-- The only default of an otherwise quiet element stands beside its serialized name. -/
theorem Element.default?_stating {e : Element} (quiet : e.IsQuiet) (text : String) (l : LiteralType)
    (found : Option Json) :
    (e.stating .jsonProperty text).default? l found = l.literalUnless e.subject text found := by
  cases found with
  | some value => rfl
  | none =>
    have unbound : (e.stating .jsonProperty text).directive? .bindable = none := by
      rw [Element.directive?_stating, quiet .bindable (by decide)]
      rfl
    have named : (e.stating .jsonProperty text).directive? .jsonProperty =
        some (Directive.defaulting text) := by
      rw [Element.directive?_stating, quiet .jsonProperty (by decide)]
      rfl
    have first : (e.stating .jsonProperty text).defaultFrom l .bindable true = (none, []) := by
      rw [defaultFrom, unbound]
      rfl
    have second : (e.stating .jsonProperty text).defaultFrom l .jsonProperty false =
        l.literal e.subject (.str text) := by
      rw [defaultFrom, named]
      rfl
    simp only [default?, first, second, List.nil_append]
    rfl

namespace Compiler

variable {c : Compiler} {env : Environment} {e : Element} {t : TypeRef} {p q : Pass}
  {s laid : Schema} {text : String} {target : ConstraintTarget} {fallback : List Schema}

/-- The default of a schema directive is read before the constraints of the element. -/
theorem yields_overlayAll_schema (quiet : e.IsQuiet) (nonempty : text ≠ "") :
    Yields (c.overlayAll env s (e.stating .schema text) t target fallback) p laid q ↔
      ∃ found, (literalType env.types p.registry [s] t).literal e.subject (.str text) = found ∧
        { s.constrained target e.directives with facets.defaultValue := found.1 } = laid ∧
        p.withDiagnostics found.2 = q := by
  have stated : (e.stating .schema text).directive? .schema = some (Directive.defaulting text) := by
    rw [Element.directive?_stating, quiet .schema (by decide)]
    rfl
  have unstated : (e.stating .schema text).directive? .arraySchema = none := by
    rw [Element.directive?_stating, quiet .arraySchema (by decide)]
    rfl
  obtain ⟨value, read, -⟩ := LiteralType.settles_literal
    (l := literalType env.types p.registry [s] t) e.subject nonempty
  have base : { s with facets.defaultValue := some value }.constrained target
      (e.stating .schema text).directives =
        { s.constrained target e.directives with facets.defaultValue := some value } := by
    rw [e.constrained_stating _ _ _ _ rfl, Schema.constrained_withDefault]
  have subject : (e.stating .schema text).subject = e.subject := rfl
  simp only [yields_overlayAll, overlayStated, stated, overlayStatedArray, unstated,
    yields_overlay_defaulting, yields_pure, subject]
  constructor
  · rintro ⟨_, p₁, _, _, ⟨_, rfl, rfl, rfl⟩, ⟨rfl, rfl⟩, _, rfl, rfl, rfl⟩
    refine ⟨_, rfl, ?_, ?_⟩
    · rw [read, Option.some_or, base]
      rfl
    · rw [read, Option.some_or, base]
      exact (withDiagnostics_nil _).symm
  · rintro ⟨_, rfl, rfl, rfl⟩
    refine ⟨_, _, _, _, ⟨_, rfl, rfl, rfl⟩, ⟨rfl, rfl⟩, _, rfl, ?_, ?_⟩
    · rw [read, Option.some_or, base]
      rfl
    · rw [read, Option.some_or, base]
      exact withDiagnostics_nil _

/-- Beside the serialized name it is read after them, and what is referred to is asked as well. -/
theorem yields_overlayAll_jsonProperty (quiet : e.IsQuiet) :
    Yields (c.overlayAll env s (e.stating .jsonProperty text) t target fallback) p laid q ↔
      ∃ found, (literalType env.types p.registry
          (s.constrained target e.directives :: fallback) t).literalUnless e.subject text
            s.facets.defaultValue = found ∧
        { s.constrained target e.directives with facets.defaultValue := found.1 } = laid ∧
        p.withDiagnostics found.2 = q := by
  have unstated {kind : DirectiveKind} (different : DirectiveKind.jsonProperty ≠ kind)
      (hkind : kind ∈ [DirectiveKind.schema, .arraySchema, .bindable, .jsonProperty]) :
      (e.stating .jsonProperty text).directive? kind = none := by
    rw [Element.directive?_stating, quiet kind hkind, if_neg different, Option.or_none]
  have noSchema : (e.stating .jsonProperty text).directive? .schema = none :=
    unstated (by decide) (by decide)
  have noArray : (e.stating .jsonProperty text).directive? .arraySchema = none :=
    unstated (by decide) (by decide)
  have base := e.constrained_stating .jsonProperty text s target rfl
  have kept : (s.constrained target e.directives).facets.defaultValue = s.facets.defaultValue :=
    LiteralSlot.value?_constrained .defaultValue s target e.directives
  simp only [yields_overlayAll, overlayStated, noSchema, overlayStatedArray, noArray, yields_pure,
    Element.default?_stating quiet]
  constructor
  · rintro ⟨_, _, _, _, ⟨rfl, rfl⟩, ⟨rfl, rfl⟩, _, rfl, rfl, rfl⟩
    rw [base, kept]
    exact ⟨_, rfl, rfl, rfl⟩
  · rintro ⟨_, rfl, rfl, rfl⟩
    refine ⟨_, _, _, _, ⟨rfl, rfl⟩, ⟨rfl, rfl⟩, _, rfl, ?_, ?_⟩
    · rw [base, kept]
    · rw [base, kept]

end Compiler

namespace Schema

/-- What the directives of an element are laid over: nothing, in place of a reference. -/
def ground (s : Schema) : Schema := if s.isRef then {} else s

/-- A schema with the constraints of an element and a default, bound or composed. -/
def boundWith (s : Schema) (e : Element) (target : ConstraintTarget) (nullable : Bool)
    (value : Option Json) : Schema :=
  let laid := { s.ground.constrained target e.directives with facets.defaultValue := value }
  if s.isRef then s.compose laid e nullable
  else
    { laid with
      labels.deprecated := if e.has .deprecated then some true else laid.labels.deprecated
    }.nullableIf nullable

/-- The default of what was bound, or of what was composed with a reference. -/
def boundDefault? (s : Schema) : Option Json :=
  s.facets.defaultValue.or (s.allOf.getLast?.bind (·.facets.defaultValue))

theorem compose_stating (reference s : Schema) (e : Element) {kind : DirectiveKind} (text : String)
    (nullable : Bool) (different : kind ≠ .deprecated) :
    reference.compose s (e.stating kind text) nullable = reference.compose s e nullable := by
  have labels : s.outerLabels (e.stating kind text) nullable = s.outerLabels e nullable := by
    rw [outerLabels, e.has_stating kind .deprecated text different]
    rfl
  rw [compose, compose, labels]

/-- A default is structure, so that what states one stands beside the reference. -/
theorem boundDefault?_compose {s : Schema} {value : Json}
    (stated : s.facets.defaultValue = some value) (reference : Schema) (e : Element)
    (nullable : Bool) : (reference.compose s e nullable).boundDefault? = some value := by
  have structured : s.hasStructure = true := by
    simp [hasStructure, Facets.isEmpty, stated]
  have inner : s.innerPart.isEmpty = false := by
    have stated' : s.innerPart.facets.defaultValue = some value := stated
    simp [isEmpty, hasStructure, Facets.isEmpty, stated']
  rw [compose, structured, inner]
  exact stated

theorem boundDefault?_boundWith (s : Schema) (e : Element) (target : ConstraintTarget)
    (nullable : Bool) (value : Json) :
    (s.boundWith e target nullable (some value)).boundDefault? = some value := by
  unfold boundWith
  dsimp only
  split
  · exact boundDefault?_compose rfl s e nullable
  · unfold nullableIf
    split <;> rfl

end Schema

/-- No directive of a quiet element says whether null is admitted, nor does a default. -/
theorem Element.admitsNull_stating {e : Element} (quiet : e.IsQuiet) (kind : DirectiveKind)
    (text : String) (nullable : Bool) : (e.stating kind text).admitsNull nullable = nullable := by
  have silent : ((e.stating kind text).directive? .schema).bind (Directive.flag? · "nullable") =
      none := by
    rw [directive?_stating, quiet .schema (by decide), Option.none_or]
    split <;> rfl
  rw [admitsNull, silent, Option.getD_none]

section

variable {c : Compiler} {env : Environment} {e : Element} {t : TypeRef} {p q : Pass}
  {derived : Schema} {text : String} {nullable : Bool}

/-- The default that a schema directive states. -/
def schemaDefault (env : Environment) (e : Element) (t : TypeRef) (derived : Schema) (p : Pass)
    (text : String) : Option Json × Diagnostics :=
  (literalType env.types p.registry [derived.ground] t).literal e.subject (.str text)

/-- The default that stands beside a serialized name. -/
def propertyDefault (env : Environment) (e : Element) (t : TypeRef) (derived : Schema) (p : Pass)
    (text : String) : Option Json × Diagnostics :=
  (literalType env.types p.registry
    (derived.ground.constrained (Element.constraintTarget env p.registry t derived) e.directives ::
      if derived.isRef then [derived] else []) t).literalUnless e.subject text
        derived.ground.facets.defaultValue

/-- Whatever is laid over the ground of a schema is bound or composed. -/
theorem yields_bind_stating {kind : DirectiveKind} {value : Option Json} (quiet : e.IsQuiet)
    (different : kind ≠ .deprecated)
    (overlaid : Yields (c.overlayAll env derived.ground (e.stating kind text) t
      (Element.constraintTarget env p.registry t derived)
      (if derived.isRef then [derived] else [])) p
      { derived.ground.constrained (Element.constraintTarget env p.registry t derived)
          e.directives with facets.defaultValue := value } q) :
    Yields (c.bind env (e.stating kind text) t derived nullable) p
      (derived.boundWith e (Element.constraintTarget env p.registry t derived) nullable value)
      q := by
  cases ref : derived.isRef with
  | true =>
    rw [Schema.ground, ref] at overlaid
    refine (Compiler.yields_bind_of_isRef ref).mpr ⟨_, overlaid, ?_⟩
    rw [Element.admitsNull_stating quiet, Schema.compose_stating _ _ _ _ _ different,
      Schema.boundWith, Schema.ground, ref]
    rfl
  | false =>
    rw [Schema.ground, ref] at overlaid
    refine (Compiler.yields_bind_of_not_isRef ref).mpr ⟨_, overlaid, ?_⟩
    rw [Element.admitsNull_stating quiet, e.has_stating kind .deprecated text different,
      Schema.boundWith, Schema.ground, ref]
    rfl

theorem yields_bind_schema (quiet : e.IsQuiet) (nonempty : text ≠ "") :
    Yields (c.bind env (e.stating .schema text) t derived nullable) p
      (derived.boundWith e (Element.constraintTarget env p.registry t derived) nullable
        (schemaDefault env e t derived p text).1)
      (p.withDiagnostics (schemaDefault env e t derived p text).2) :=
  yields_bind_stating quiet (by decide)
    ((Compiler.yields_overlayAll_schema quiet nonempty).mpr ⟨_, rfl, rfl, rfl⟩)

theorem yields_bind_jsonProperty (quiet : e.IsQuiet) :
    Yields (c.bind env (e.stating .jsonProperty text) t derived nullable) p
      (derived.boundWith e (Element.constraintTarget env p.registry t derived) nullable
        (propertyDefault env e t derived p text).1)
      (p.withDiagnostics (propertyDefault env e t derived p text).2) :=
  yields_bind_stating quiet (by decide)
    ((Compiler.yields_overlayAll_jsonProperty quiet).mpr ⟨_, rfl, rfl, rfl⟩)

/-- A schema without a type has no say in how literals are read. -/
theorem literalType_cons {u : Universe} {r : Registry} {s : Schema} (inline : s.isRef = false)
    (untyped : s.type = none) (fallback : List Schema) :
    literalType u r (s :: fallback) t = literalType u r fallback t := by
  have silent : r.literalType? s = none := by
    simp [Registry.literalType?, inline, untyped]
  simp only [literalType, List.findSome?_cons, silent]

/-- Constraints of what is written out leave the way in which literals are read, unless they say
something of the format. -/
theorem literalType_constrained {u : Universe} {r : Registry} {s : Schema}
    {target : ConstraintTarget} {ds : Directives} (inline : s.isRef = false)
    (format : (s.constrained target ds).facets.format = s.facets.format) :
    literalType u r [s.constrained target ds] t = literalType u r [s] t := by
  have same : r.literalType? (s.constrained target ds) = r.literalType? s := by
    have inline' : (s.constrained target ds).isRef = false := inline
    simp only [Registry.literalType?, inline, inline', format, Bool.false_eq_true, if_false,
      Option.bind_some]
    rfl
  simp only [literalType, List.findSome?_cons, same]

theorem schemaDefault_eq_of_inline (inline : derived.isRef = false)
    (bare : derived.facets.defaultValue = none)
    (format : (derived.constrained (Element.constraintTarget env p.registry t derived)
      e.directives).facets.format = derived.facets.format) :
    schemaDefault env e t derived p text = propertyDefault env e t derived p text := by
  have ground : derived.ground = derived := by
    rw [Schema.ground, inline]
    rfl
  have read := literalType_constrained (u := env.types) (r := p.registry) (t := t) inline format
  simp only [schemaDefault, propertyDefault, ground, inline, bare, read, Bool.false_eq_true,
    if_false]
  rfl

theorem schemaDefault_eq_of_isRef (ref : derived.isRef = true) :
    schemaDefault env e t derived p text =
      (literalType env.types p.registry [] t).literal e.subject (.str text) := by
  rw [schemaDefault, Schema.ground, if_pos ref, literalType_cons rfl rfl]

theorem propertyDefault_eq_of_isRef (ref : derived.isRef = true) :
    propertyDefault env e t derived p text =
      (literalType env.types p.registry [derived] t).literal e.subject (.str text) := by
  have ground : derived.ground = {} := if_pos ref
  rw [propertyDefault, if_pos ref, ground, literalType_cons rfl rfl]
  rfl

/-- What was bound shows the default and what was noted of it. -/
theorem shows_iff {target : ConstraintTarget} {found found' : Option Json × Diagnostics}
    (stated : found.1.isSome) (stated' : found'.1.isSome) :
    ((derived.boundWith e target nullable found.1).boundDefault? =
        (derived.boundWith e target nullable found'.1).boundDefault? ∧
      (p.withDiagnostics found.2).diagnostics = (p.withDiagnostics found'.2).diagnostics) ↔
        found = found' := by
  obtain ⟨value, hvalue⟩ := Option.isSome_iff_exists.mp stated
  obtain ⟨value', hvalue'⟩ := Option.isSome_iff_exists.mp stated'
  rw [hvalue, hvalue', Schema.boundDefault?_boundWith, Schema.boundDefault?_boundWith, ← hvalue,
    ← hvalue', Prod.ext_iff]
  exact and_congr_right fun _ => List.append_right_inj p.diagnostics

/-- A schema directive with a default and nothing else, and a serialized name with the same default,
both bind.  They leave the same default and the same diagnostics exactly if the text is read in the
same way.  So it is for what is written out, unless that has a default already or a constraint adds
a format.  Over a reference it is a matter of whether the type of the occurrence and that of the
definition read the text alike. -/
theorem sameDefaults_iff_of_bind (quiet : e.IsQuiet) (nonempty : text ≠ "") :
    ∃ s q s' q', Yields (c.bind env (e.stating .schema text) t derived nullable) p s q ∧
      Yields (c.bind env (e.stating .jsonProperty text) t derived nullable) p s' q' ∧
      (s.boundDefault? = s'.boundDefault? ∧ q.diagnostics = q'.diagnostics ↔
        schemaDefault env e t derived p text = propertyDefault env e t derived p text) ∧
      (derived.isRef = false → derived.facets.defaultValue = none →
        (derived.constrained (Element.constraintTarget env p.registry t derived)
          e.directives).facets.format = derived.facets.format → s = s' ∧ q = q') ∧
      (derived.isRef = true → (s.boundDefault? = s'.boundDefault? ∧ q.diagnostics = q'.diagnostics ↔
        (literalType env.types p.registry [] t).literal e.subject (.str text) =
          (literalType env.types p.registry [derived] t).literal e.subject (.str text))) := by
  have stated : (schemaDefault env e t derived p text).1.isSome :=
    LiteralType.isSome_literalUnless _ _ nonempty none
  have stated' : (propertyDefault env e t derived p text).1.isSome :=
    LiteralType.isSome_literalUnless _ _ nonempty _
  refine ⟨_, _, _, _, yields_bind_schema quiet nonempty, yields_bind_jsonProperty quiet,
    shows_iff stated stated', fun inline bare format => ?_, fun ref => ?_⟩
  · rw [schemaDefault_eq_of_inline inline bare format]
    exact ⟨rfl, rfl⟩
  · rw [shows_iff stated stated', schemaDefault_eq_of_isRef ref, propertyDefault_eq_of_isRef ref]

end

/-- An element of which nothing is said but its name. -/
def Element.bare (name : String) : Element where
  name := name

theorem Element.isQuiet_bare (name : String) : (bare name).IsQuiet :=
  fun _ _ => rfl

/-- A count with a default, stated in one of the ways. -/
def boundCount (kind : DirectiveKind) : PassM Schema :=
  (Compiler.ofDepth builtIn 1).bind builtIn ((Element.bare "count").stating kind "7") (.plain "int")
    (.typed .integer) false

theorem sameDefaults_iff_of_bind_count : ∃ s q, Yields (boundCount .schema) {} s q ∧
    Yields (boundCount .jsonProperty) {} s q := by
  obtain ⟨s, q, _, _, first, second, -, inline, -⟩ :=
    @sameDefaults_iff_of_bind (Compiler.ofDepth builtIn 1) builtIn (.bare "count") (.plain "int")
      {} (.typed .integer) "7" false (Element.isQuiet_bare "count") (by decide)
  obtain ⟨rfl, rfl⟩ := inline rfl rfl rfl
  exact ⟨s, q, first, second⟩

/-- Levels that are written as integers, though nothing says so but their schema directive. -/
def level : Decl where
  name := "com.acme.Level"
  kind := .enum
  constants := [{ name := "1" }, { name := "2" }]
  directives := [(.schema, [("type", .str "integer"), ("enum", .arr [.str "1", .str "2"])])]

def levels : Environment where
  types := (Universe.initial .standard).insertAll [level]
  config := {}

/-- What an occurrence of the levels resolves to. -/
def resolvedLevel : PassM (Option Resolved) :=
  (Compiler.ofDepth levels 3).resolve (some (.bare "level")) (.plain "com.acme.Level") {}

/-- A level with a default, stated in one of the ways. -/
def boundLevel (kind : DirectiveKind) (r : Resolved) : PassM Schema :=
  (Compiler.ofDepth levels 3).bind levels ((Element.bare "level").stating kind "1")
    (.plain "com.acme.Level") r.schema r.nullable

/-- The definition of the levels says that they are integers, their declaration that they are texts,
and so the one default is a text and the other a number. -/
theorem not_sameDefaults_level : ∃ r p s q s' q', Yields resolvedLevel {} (some r) p ∧
    r.schema.isRef = true ∧ Yields (boundLevel .schema r) p s q ∧
    Yields (boundLevel .jsonProperty r) p s' q' ∧ s.boundDefault? ≠ s'.boundDefault? := by
  have runs : passes (do return (← resolvedLevel, ← get)) {} (fun found => found.1.any fun r =>
      r.schema.isRef && literalType levels.types found.2.registry [r.schema]
        (.plain "com.acme.Level") == ⟨some .integer, none⟩) = true := by
    decide +kernel
  obtain ⟨⟨found, p⟩, yields, tested⟩ := exists_of_passes runs
  obtain ⟨r, rfl, holds⟩ := (Option.any_eq_true _ _).mp tested
  obtain ⟨ref, integers⟩ := (Bool.and_eq_true _ _).mp holds
  obtain ⟨_, _, resolved, yields⟩ := yields_bind.mp yields
  obtain ⟨_, _, got, yields⟩ := yields_bind.mp yields
  obtain ⟨rfl, rfl⟩ := yields_get.mp got
  obtain ⟨same, rfl⟩ := yields_pure.mp yields
  obtain ⟨rfl, rfl⟩ := Prod.mk.inj same
  have quiet := Element.isQuiet_bare "level"
  refine ⟨r, _, _, _, _, _, resolved, ref, yields_bind_schema quiet (by decide),
    yields_bind_jsonProperty quiet, ?_⟩
  have text (registry : Registry) :
      ((literalType levels.types registry [] (.plain "com.acme.Level")).literal
        (Element.bare "level").subject (.str "1")).1 = some (.str "1") := rfl
  have number : ((⟨some .integer, none⟩ : LiteralType).literal (Element.bare "level").subject
      (.str "1")).1 = some (.num (.int 1)) := rfl
  rw [schemaDefault_eq_of_isRef ref, propertyDefault_eq_of_isRef ref, eq_of_beq integers, text,
    number, Schema.boundDefault?_boundWith, Schema.boundDefault?_boundWith]
  rintro ⟨⟩

end Schemata
