import Schemata.Proofs.Pass.Written

/-!
# Effects of schema directives

Two kinds of schema directives leave the structure of a schema as it is.  One says nothing but
labels.  The other names a value type for its element, which then stands in the place of the
type before anything is written out for it.
-/
namespace Schemata

open Pass

/-! ### Labels -/

namespace Directive

/-- The keys under which a schema directive says more than labels do. -/
def structuralKeys : List String :=
  ["$ref", "type", "format", "multipleOf", "minimum", "maximum", "exclusiveMinimum",
    "exclusiveMaximum", "minLength", "maxLength", "pattern", "minProperties", "maxProperties",
    "readOnly", "writeOnly", "requiredProperties", "enum", "example", "examples", "default",
    "discriminator", "extensions", "additionalProperties", "not", "allOf", "anyOf", "oneOf"]

/-- Whether the directive says nothing but labels. -/
def isDecoration (d : Directive) : Bool := structuralKeys.all fun key => (d.get? key).isNone

/-- Whether the directive says nothing but labels, and perhaps a type. -/
def isBrief (d : Directive) : Bool :=
  structuralKeys.all fun key => key == "type" || (d.get? key).isNone

theorem isBrief_of_isDecoration {d : Directive} (h : d.isDecoration = true) : d.isBrief = true := by
  rw [isDecoration, List.all_eq_true] at h
  rw [isBrief, List.all_eq_true]
  intro key structural
  rw [h key structural, Bool.or_true]

theorem statedType?_of_isDecoration {d : Directive} (h : d.isDecoration = true) :
    d.statedType? = none := by
  have untyped : d.get? "type" = none :=
    Option.isNone_iff_eq_none.mp (List.all_eq_true.mp h "type" (by decide))
  simp [statedType?, text?, untyped]

end Directive

section

variable {d : Directive} (h : d.isBrief = true)

include h

theorem Directive.absent_of_isBrief :
    ∀ key ∈ structuralKeys, key ≠ "type" → Assoc.get? d key = none := by
  intro key structural other
  have absent := List.all_eq_true.mp h key structural
  rw [Bool.or_eq_true, beq_iff_eq] at absent
  exact Option.isNone_iff_eq_none.mp (absent.resolve_left other)

theorem Facets.overlaid_of_isBrief (f : Facets) : f.overlaid d = f := by
  have absent := Directive.absent_of_isBrief h
  simp only [Directive.structuralKeys, List.forall_mem_cons] at absent
  simp [Facets.overlaid, Directive.text?, Directive.number?, Directive.count?, Directive.raised,
    Directive.flag?, absent]

theorem Facets.withLiterals_of_isBrief (f : Facets) (l : LiteralType) (subject : String) :
    f.withLiterals d l subject = (f, []) := by
  have absent := Directive.absent_of_isBrief h
  simp only [Directive.structuralKeys, List.forall_mem_cons] at absent
  simp [Facets.withLiterals, absent]

theorem Schema.overlaid_of_isBrief (s : Schema) (detached : Bool) (subject : String) :
    (s.overlaid d detached subject).1 =
      { s with type := d.statedType?.or s.type, labels := s.labels.overlaid d detached } := by
  have absent := Directive.absent_of_isBrief h
  simp only [Directive.structuralKeys, List.forall_mem_cons] at absent
  simp [Schema.overlaid, Schema.overlaidType_fst, Facets.overlaid_of_isBrief h, Directive.text?,
    Directive.texts, absent]

/-- A brief directive sets labels, and the type if it states one. -/
theorem Compiler.overlay_of_isBrief {c : Compiler} {env : Environment} {s t : Schema}
    {element : Option Element} {type : TypeRef} {p q : Pass}
    (hm : Yields (c.overlay env s d element type) p t q) :
    t = { s with
      type := d.statedType?.or s.type
      labels := s.labels.overlaid d (!(element.any Element.isMember)) } := by
  have absent := Directive.absent_of_isBrief h
  simp only [Directive.structuralKeys, List.forall_mem_cons, ne_eq, String.reduceEq,
    not_false_eq_true, forall_const] at absent
  have named (subject : String) : c.allNamed subject [] = pure [] := rfl
  simp only [Compiler.overlay, yields_bind, yields_noting, yields_get] at hm
  obtain ⟨_, _, ⟨rfl, -⟩, _, _, -, _, _, ⟨rfl, -⟩, hm⟩ := hm
  rw [Schema.overlaid_of_isBrief h] at hm
  simp only [Schema.withLiterals, Facets.withLiterals_of_isBrief h,
    Compiler.withDiscriminator, Compiler.withAdditional, Compiler.withExtensions,
    Compiler.withNot, Compiler.withAlternatives, named, Directive.section?, Directive.text?,
    Directive.texts, absent, Option.getD_none, List.foldl_nil, pure_bind, yields_pure] at hm
  obtain ⟨_, _, ⟨rfl, -⟩, _, _, ⟨rfl, -⟩, _, _, ⟨rfl, -⟩, rfl, -⟩ := hm
  rfl

end

/-- A directive that says nothing but labels changes nothing else. -/
theorem Compiler.overlay_of_isDecoration {d : Directive} (h : d.isDecoration = true) {c : Compiler}
    {env : Environment} {s t : Schema} {element : Option Element} {type : TypeRef} {p q : Pass}
    (hm : Yields (c.overlay env s d element type) p t q) :
    ∃ l, t = { s with labels := l } := by
  have laid := overlay_of_isBrief (Directive.isBrief_of_isDecoration h) hm
  rw [Directive.statedType?_of_isDecoration h, Option.none_or] at laid
  exact ⟨_, laid⟩

/-! ### Value types -/

/-- Whether the directive puts a value type in the place of the type of its element: it names
one that goes by its own name, and no implementation. -/
def Environment.putsValue (env : Environment) (d : Directive) : Bool :=
  (d.text? "implementation").isNone &&
    (((d.text? "type").filter (· ≠ "object")).bind Primitive.ofCommonName?).any fun value =>
      (env.types.primitiveOf? (.plain value.name)).isSome &&
        (replacementText? env.config (.plain value.name)).isNone

/-- A schema that has neither properties nor items where the schema directive of the element puts
a value type in place. -/
def Environment.Suits (env : Environment) (e : Element) (s : Schema) : Prop :=
  ∀ d, e.directive? .schema = some d → env.putsValue d = true → s.properties = [] ∧ s.items = none

section

variable {env : Environment} {e : Element} {d : Directive} {t : TypeRef}

theorem Universe.kindOf_of_primitiveOf? {u : Universe} {value : Primitive}
    (h : u.primitiveOf? t = some value) : u.kindOf t = .primitive value := by
  unfold primitiveOf? at h
  split at h
  · rename_i kind
    rw [kind, Option.some.inj h]
  · cases h

/-- The occurrence that is looked at is then that of the value type. -/
theorem openOccurrence_of_putsValue (h : env.putsValue d = true)
    (hd : e.directive? .schema = some d) (t : TypeRef) :
    ∃ value type, env.types.kindOf type = .primitive value ∧
      (openOccurrence env (some e) t).1 = { type := type } := by
  simp only [Environment.putsValue, Bool.and_eq_true, Option.isNone_iff_eq_none,
    Option.any_eq_true] at h
  obtain ⟨noImplementation, named, hnamed, value, kept⟩ := h
  obtain ⟨primitive, hprimitive⟩ := Option.isSome_iff_exists.mp value
  have kind := Universe.kindOf_of_primitiveOf? hprimitive
  have noWrapper : env.types.wrapperOf? (.plain named.name) = none := by
    rw [Universe.wrapperOf?, kind]
  refine ⟨primitive, .plain named.name, kind, ?_⟩
  have put : (overridden env.types (subjectOf (some e) t)
      ((some e).bind (·.directive? .schema)) t).1 = .plain named.name := by
    rw [Option.bind_some, hd, overridden]
    simp only [noImplementation, hnamed]
  have content : (TypeRef.opened env.types (subjectOf (some e) t) (.plain named.name)).1 =
      { type := .plain named.name } := by
    rw [TypeRef.plain] at noWrapper ⊢
    simp only [TypeRef.opened, noWrapper]
  have same : (replaced env (subjectOf (some e) t) (.plain named.name)).1 =
      .plain named.name := by
    rw [replaced, kept]
  simp only [openOccurrence, put, content, same]

/-- What is written out for an element suits its schema directive. -/
theorem Compiler.suits_of_occurrence {c : Compiler} {scope : Scope} {p q : Pass}
    {found : Resolved} (hm : Yields (c.occurrence env (some e) t scope) p (some found) q) :
    env.Suits e found.schema := by
  intro d hd put
  obtain ⟨value, type, kind, opens⟩ := openOccurrence_of_putsValue put hd t
  obtain ⟨s, opened, same⟩ := yields_occurrence.mp hm
  rw [opens] at opened same
  simp only [Compiler.opened, kind, yields_pure] at opened
  obtain ⟨rfl, -⟩ := opened
  obtain rfl := Option.some.inj same
  have plain : (wrapped env (some e) scope { type := type }
      (value.schema.used .value type.directives)).schema =
        describedBy (some e) (value.schema.used .value type.directives) := rfl
  rw [plain]
  unfold describedBy Schema.used
  dsimp only
  constructor <;> split <;> split <;> rfl

end

end Schemata
