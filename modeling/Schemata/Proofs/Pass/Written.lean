import Schemata.Proofs.Pass.Overlays
import Schemata.Proofs.Schema.References

/-!
# What is written out

An occurrence comes to a reference, or to a value or container that is written out of what its
arguments come to.  What goes on to hold from the arguments to the whole holds of all that a
compiler gives.  A directive adds nothing to the schema that it is laid over but parts that a
compiler gives.
-/
namespace Schemata

open Pass

/-- What holds of references and goes on to hold from arguments to what is written out of them,
and what holds of the arguments. -/
structure Universe.Compositional (u : Universe) (P Q : Schema → Prop) : Prop where
  reference (name : String) : P (.reference name)
  labelled {s : Schema} (l : Labels) : P s → P { s with labels := l }
  value (type : SchemaType) {f : Facets} (bare : f.extensions = []) :
    P { type := some type, facets := f }
  argument {s : Schema} : P s → Q s
  used {s : Schema} (arg : TypeRef) : P s → Q (Compiler.withUse u arg s)
  array {s : Schema} : Q s → P (.array s)
  anyMap : P { Schema.object with additional := some (.allowed true) }
  map {s : Schema} : Q s → P { Schema.object with additional := some (.schema s) }
  constants {key : TypeRef} {d : Decl} {s : Schema} : u.kindOf key = .enum d → Q s →
    P { Schema.object with
      properties := Assoc.ofList (((d.enumValues (some .string) none).1.getD []).map
        fun key => (Mangle.rendered key, s)) }

/-- Constraints are no extensions. -/
theorem Facets.extensions_constrain (target : ConstraintTarget) (f : Facets) (kind : DirectiveKind)
    (d : Directive) : (f.constrain target kind d).extensions = f.extensions := by
  cases kind with
  | min | decimalMin => rw [constrain, withLower_eq]
  | max | decimalMax => rw [constrain, withUpper_eq]
  | _ => cases target <;> rfl

/-- What no constraint changes is left by all of them. -/
theorem Schema.constrained_of_constrain {α : Type} {read : Facets → α} {target : ConstraintTarget}
    (kept : ∀ f kind d, read (Facets.constrain target f kind d) = read f) (s : Schema)
    (ds : Directives) : read (s.constrained target ds).facets = read s.facets := by
  unfold Schema.constrained
  generalize ds.constraints = constraints
  generalize s.facets = f
  induction constraints generalizing f with
  | nil => rfl
  | cons entry rest ih => exact (ih _).trans (kept f entry.1 entry.2)

theorem Schema.extensions_constrained (s : Schema) (target : ConstraintTarget) (ds : Directives) :
    (s.constrained target ds).facets.extensions = s.facets.extensions :=
  s.constrained_of_constrain (Facets.extensions_constrain target) ds

namespace Compiler

/-- A compiler all of whose schemas have a property. -/
structure Gives (P : Schema → Prop) (c : Compiler) : Prop where
  resolve {element : Option Element} {t : TypeRef} {scope : Scope} {p q : Pass} {r : Resolved} :
    Yields (c.resolve element t scope) p (some r) q → P r.schema
  define {element : Option Element} {t : TypeRef} {scope : Scope} {p q : Pass} {s : Schema} :
    Yields (c.define element t scope) p (some s) q → P s

variable {c : Compiler} {env : Environment} {P Q : Schema → Prop} {element : Option Element}
  {t : TypeRef} {scope : Scope} {p q : Pass} {s : Schema}

namespace Gives

section

variable (compositional : env.types.Compositional P Q) (h : c.Gives P)

include compositional h

theorem schema? (hm : Yields (c.schema? t scope) p (some s) q) : P s := by
  obtain ⟨found, _, resolved, hm⟩ := yields_bind.mp hm
  obtain ⟨same, -⟩ := yields_pure.mp hm
  obtain ⟨r, rfl, rfl⟩ := Option.map_eq_some_iff.mp same
  unfold Resolved.outer
  split
  · exact compositional.labelled _ (h.resolve resolved)
  · exact h.resolve resolved

theorem argument {arg : TypeRef} (hm : Yields (c.argument env arg scope) p (some s) q) :
    Q s := by
  obtain ⟨found, _, given, hm⟩ := yields_bind.mp hm
  obtain ⟨same, -⟩ := yields_pure.mp hm
  obtain ⟨s, rfl, rfl⟩ := Option.map_eq_some_iff.mp same
  exact compositional.used arg (h.schema? compositional given)

theorem unrolledMap {d : Decl} {key value : TypeRef} (kind : env.types.kindOf key = .enum d)
    (hm : Yields (c.unrolledMap env d key value scope) p s q) : P s := by
  simp only [Compiler.unrolledMap, yields_bind, yields_noting, yields_pure] at hm
  obtain ⟨_, _, _, found, _, given, keys, _, ⟨rfl, -⟩, rfl, -⟩ := hm
  refine compositional.constants kind ?_
  cases found with
  | none => exact compositional.argument (compositional.value .object rfl)
  | some s => exact h.argument compositional given

theorem uniformMap {value : TypeRef} (hm : Yields (c.uniformMap env value scope) p s q) : P s := by
  unfold Compiler.uniformMap at hm
  split at hm
  · obtain ⟨rfl, -⟩ := yields_pure.mp hm
    exact compositional.anyMap
  · obtain ⟨found, _, given, hm⟩ := yields_bind.mp hm
    cases found with
    | none =>
      obtain ⟨rfl, -⟩ := yields_pure.mp hm
      exact compositional.anyMap
    | some s =>
      obtain ⟨rfl, -⟩ := yields_pure.mp hm
      exact compositional.map (h.argument compositional given)

theorem map {args : List TypeRef} (hm : Yields (c.map env args scope) p s q) : P s := by
  cases args with
  | nil =>
    obtain ⟨rfl, -⟩ := yields_pure.mp hm
    exact compositional.anyMap
  | cons key rest =>
    simp only [Compiler.map] at hm
    cases kind : env.types.kindOf key with
    | enum d =>
      rw [kind] at hm
      exact h.unrolledMap compositional kind hm
    | _ =>
      rw [kind] at hm
      exact h.uniformMap compositional hm

theorem opened {subject : String}
    (hm : Yields (c.opened env subject element t scope) p (some s) q) : P s := by
  cases represents_of_yields hm with
  | defined _ hm => exact h.define hm
  | @value v =>
    have value := compositional.value v.typeAndFormat.1
      (v.schema.extensions_constrained .value t.directives)
    unfold Schema.used
    dsimp only
    split
    · exact compositional.labelled _ value
    · exact value
  | bytes => exact compositional.value .string rfl
  | list _ items => exact compositional.array (h.argument compositional items)
  | untyped =>
    exact compositional.array (compositional.argument (compositional.value .object rfl))
  | map _ written => exact h.map compositional written

theorem occurrence {r : Resolved} (hm : Yields (c.occurrence env element t scope) p (some r) q) :
    P r.schema := by
  obtain ⟨found, opened, same⟩ := yields_occurrence.mp hm
  obtain ⟨s, rfl, rfl⟩ := Option.map_eq_some_iff.mp same
  have described : P (describedBy element s) := by
    unfold describedBy
    split
    · exact compositional.labelled _ (h.opened compositional opened)
    · exact h.opened compositional opened
  unfold wrapped streamed
  dsimp only
  split
  · exact compositional.array (compositional.argument described)
  · exact described

end

end Gives

/-- A definition is answered with a reference, which is perhaps described. -/
theorem Defines.gives (compositional : env.types.Compositional P Q)
    (h : c.Defines env element t scope p (some s) q) : P s := by
  cases h with
  | known => exact compositional.reference _
  | @built d =>
    unfold Decl.definedReference
    split
    · exact compositional.labelled _ (compositional.reference _)
    · exact compositional.reference _

/-- A compiler of any depth gives what is written out. -/
theorem gives_ofDepth (compositional : env.types.Compositional P Q) (depth : Nat) :
    (ofDepth env depth).Gives P := by
  induction depth with
  | zero => exact ⟨fun hm => absurd hm not_yields_throw, fun hm => absurd hm not_yields_throw⟩
  | succ depth ih =>
    exact ⟨ih.occurrence compositional, fun hm => (defines_of_yields hm).gives compositional⟩

/-! ### Named types -/

namespace Gives

variable (compositional : env.types.Compositional P Q) (h : c.Gives P) {subject : String}

include compositional h

theorem named? {text : String} (hm : Yields (c.named? subject text) p (some s) q) : P s := by
  unfold Compiler.named? at hm
  split at hm
  · exact h.schema? compositional hm
  · simp only [yields_bind, yields_report, yields_pure] at hm
    obtain ⟨_, _, _, nothing, -⟩ := hm
    cases nothing

theorem mapM_named? {texts : List String} {found : List (Option Schema)}
    (hm : Yields (texts.mapM (c.named? subject)) p found q) :
    ∀ s, some s ∈ found → texts ≠ [] ∧ P s := by
  induction texts generalizing p q found with
  | nil =>
    rw [List.mapM_nil] at hm
    obtain ⟨rfl, -⟩ := yields_pure.mp hm
    exact fun s hs => by cases hs
  | cons text texts ih =>
    rw [List.mapM_cons] at hm
    simp only [yields_bind, yields_pure] at hm
    obtain ⟨first, _, named, rest, _, others, rfl, -⟩ := hm
    intro s hs
    refine ⟨List.cons_ne_nil _ _, ?_⟩
    rcases List.mem_cons.mp hs with here | later
    · rw [← here] at named
      exact h.named? compositional named
    · exact (ih others s later).2

theorem allNamed {texts : List String} {all : List Schema}
    (hm : Yields (c.allNamed subject texts) p all q) : ∀ s ∈ all, texts ≠ [] ∧ P s := by
  obtain ⟨found, _, named, hm⟩ := yields_bind.mp hm
  obtain ⟨rfl, -⟩ := yields_pure.mp hm
  intro s hs
  obtain ⟨o, ho, same⟩ := List.mem_filterMap.mp hs
  exact h.mapM_named? compositional named s (same ▸ ho)

end Gives

end Compiler

/-! ### Directives -/

/-- The type that a directive states, if it is the name of one. -/
def Directive.statedType? (d : Directive) : Option SchemaType :=
  (d.text? "type").bind SchemaType.ofName?

theorem Schema.overlaidType_fst (s : Schema) (d : Directive) (subject : String) :
    (s.overlaidType d subject).1 = d.statedType?.or s.type := by
  unfold Schema.overlaidType Directive.statedType? SchemaType.read
  cases d.text? "type" with
  | none => rfl
  | some text => cases h : SchemaType.ofName? text <;> simp [h]

/-- What the types that a directive names add to a schema: parts only. -/
structure Schema.Extends (P : Schema → Prop) (d : Directive) (s t : Schema) : Prop where
  ref : t.ref = s.ref
  type : t.type = s.type
  items : t.items = s.items
  properties : t.properties = s.properties
  composed : t.allOf = [] → s.allOf = []
  allOf {part : Schema} : part ∈ t.allOf → part ∈ s.allOf ∨ d.texts "allOf" ≠ [] ∧ P part
  parts {part : Schema} : part ∈ t.parts → part ∈ s.parts ∨ P part

/-- What a directive makes of the schema that it is laid over. -/
structure Schema.Overlaid (P : Schema → Prop) (d : Directive) (s t : Schema) : Prop where
  ref : t.ref = (d.text? "$ref").or s.ref
  type : t.type = d.statedType?.or s.type
  items : t.items = s.items
  properties : t.properties = s.properties
  composed : t.allOf = [] → s.allOf = []
  allOf {part : Schema} : part ∈ t.allOf → part ∈ s.allOf ∨ d.texts "allOf" ≠ [] ∧ P part
  parts {part : Schema} : part ∈ t.parts → part ∈ s.parts ∨ P part

namespace Schema.Extends

variable {P : Schema → Prop} {d : Directive} {s t u : Schema}

/-- Other facets alone. -/
theorem facets (s : Schema) (f : Facets) : s.Extends P d { s with facets := f } :=
  ⟨rfl, rfl, rfl, rfl, id, .inl, .inl⟩

theorem trans (h : s.Extends P d t) (h' : t.Extends P d u) : s.Extends P d u where
  ref := h'.ref.trans h.ref
  type := h'.type.trans h.type
  items := h'.items.trans h.items
  properties := h'.properties.trans h.properties
  composed none := h.composed (h'.composed none)
  allOf mem := (h'.allOf mem).elim h.allOf .inr
  parts mem := (h'.parts mem).elim h.parts .inr

end Schema.Extends

namespace Compiler.Gives

variable {c : Compiler} {env : Environment} {P Q : Schema → Prop} {element : Option Element}
  {t : TypeRef} {p q : Pass} {s s' : Schema} {d : Directive} {subject : String}

theorem withDiscriminator (hm : Yields (c.withDiscriminator s d subject) p s' q) :
    s.Extends P d s' := by
  obtain ⟨_, rfl⟩ := exists_of_withDiscriminator hm
  exact .facets s _

variable (compositional : env.types.Compositional P Q) (h : c.Gives P)

include compositional h

theorem withAdditional (hm : Yields (c.withAdditional s d subject) p s' q) : s.Extends P d s' := by
  obtain ⟨additional, rfl, origin⟩ := exists_of_withAdditional hm
  refine ⟨rfl, rfl, rfl, rfl, id, .inl, fun {part} mem => ?_⟩
  have given (value : additional = some (.schema part)) :
      s.additional = some (.schema part) ∨ P part :=
    (origin part value).imp_right fun ⟨_, named⟩ => h.named? compositional named
  rw [Schema.mem_parts] at mem ⊢
  simp only at mem
  grind

theorem withNot (hm : Yields (c.withNot s d subject) p s' q) : s.Extends P d s' := by
  obtain ⟨excluded, rfl, origin⟩ := exists_of_withNot hm
  refine ⟨rfl, rfl, rfl, rfl, id, .inl, fun {part} mem => ?_⟩
  have given (value : excluded = some part) : s.not = some part ∨ P part :=
    (origin part value).imp_right fun ⟨_, named⟩ => h.named? compositional named
  rw [Schema.mem_parts] at mem ⊢
  simp only at mem
  grind

theorem withAlternatives (hm : Yields (c.withAlternatives s d subject) p s' q) :
    s.Extends P d s' := by
  obtain ⟨all, _, any, _, one, hall, hany, hone, rfl⟩ := yields_withAlternatives.mp hm
  have inAll := h.allNamed compositional hall
  have inAny := h.allNamed compositional hany
  have inOne := h.allNamed compositional hone
  refine ⟨rfl, rfl, rfl, rfl, Schema.eq_nil_of_pushAll, fun mem => ?_, fun {part} mem => ?_⟩
  · exact (Schema.mem_pushAll mem).imp_right (inAll _)
  · rw [Schema.mem_parts] at mem ⊢
    have ofAll := @Schema.mem_pushAll s.allOf all part
    have ofAny := @Schema.mem_pushAll s.anyOf any part
    have ofOne := @Schema.mem_pushAll s.oneOf one part
    have knownAll := inAll part
    have knownAny := inAny part
    have knownOne := inOne part
    simp only at mem
    grind

/-- Laying a directive over a schema changes its reference and its type where the directive
states them, and otherwise adds parts that the compiler gives. -/
theorem overlay (hm : Yields (c.overlay env s d element t) p s' q) : s.Overlaid P d s' := by
  simp only [Compiler.overlay, yields_bind, yields_noting, yields_get] at hm
  obtain ⟨s₁, _, ⟨rfl, -⟩, _, _, -, s₂, _, ⟨rfl, -⟩, s₃, _, discriminated, s₄, _, additional, s₅, _,
    excluded, hm⟩ := hm
  have extended : ((s.overlaid d (!(element.any Element.isMember)) (subjectOf element t)).1).Extends
      P d s' :=
    (((Schema.Extends.facets _ _).trans (withDiscriminator discriminated)).trans
      ((Schema.Extends.facets _ _).trans (h.withAdditional compositional additional))).trans
      ((h.withNot compositional excluded).trans (h.withAlternatives compositional hm))
  refine ⟨extended.ref, ?_, extended.items, extended.properties, extended.composed,
    extended.allOf, extended.parts⟩
  exact extended.type.trans (s.overlaidType_fst d _)

end Compiler.Gives

end Schemata
