import Schemata.Proofs.Pass.Enumerations
import Schemata.Proofs.Schema.Properties

/-!
# Maps with listed keys

A map from an enumeration has a property for each constant, under the text that is written for it.
The definition of the enumeration lists what these texts are read as.  So the two agree if every
constant is listed as it is written, and for different texts only then.
-/
namespace Schemata

open Pass

/-- The literals of a definition as texts. -/
def Schema.literalTexts (s : Schema) : List String :=
  (s.facets.enumValues.getD []).map Mangle.rendered

/-- The property names of a map are the literals of a definition, each once. -/
def Schema.IsKeyedBy (s w : Schema) : Prop := s.propertyNames = w.literalTexts.eraseDups

namespace Decl

/-- A map from the constants that are shown, each text once. -/
def mapTo (d : Decl) (value : Schema) : Schema :=
  { Schema.object with
    properties := (d.visibleConstants.map Constant.written).eraseDups.map fun key => (key, value) }

theorem propertyNames_mapTo (d : Decl) (value : Schema) :
    (d.mapTo value).propertyNames = (d.visibleConstants.map Constant.written).eraseDups := by
  rw [Schema.propertyNames, mapTo, Assoc.keys, List.map_map]
  exact List.map_id' _

end Decl

/-- A definition lists the constant as it is written. -/
def Constant.IsListedAsWritten (c : Constant) (owner : String) (l : LiteralType) : Prop :=
  Mangle.rendered (c.value owner l.type l.format).1 = c.written

instance (c : Constant) (owner : String) (l : LiteralType) :
    Decidable (c.IsListedAsWritten owner l) :=
  inferInstanceAs (Decidable (_ = _))

theorem Constant.isListedAsWritten_of_plain (c : Constant) (owner : String) :
    c.IsListedAsWritten owner ⟨some .string, none⟩ := by
  rw [IsListedAsWritten, value_of_plain, Mangle.rendered]

/-- When the keys of a map are the literals of a definition of the enumeration. -/
structure Decl.KeysAgree (u : Universe) (d : Decl) (s w : Schema) : Prop where
  of_written : (∀ c ∈ d.visibleConstants, c.IsListedAsWritten d.name (d.represented u)) →
    s.IsKeyedBy w
  of_texts : u.representationOfEnum d = (.string, none) → s.IsKeyedBy w
  iff : (d.visibleConstants.map Constant.written).Nodup →
    (s.IsKeyedBy w ↔ ∀ c ∈ d.visibleConstants, c.IsListedAsWritten d.name (d.represented u))

theorem Decl.keysAgree_mapTo {u : Universe} {d : Decl} {w : Schema} (value : Schema)
    (literals : w.literalTexts = d.visibleConstants.map fun c =>
      Mangle.rendered (c.value d.name (d.represented u).type (d.represented u).format).1) :
    d.KeysAgree u (d.mapTo value) w := by
  have of_written (listed : ∀ c ∈ d.visibleConstants,
      c.IsListedAsWritten d.name (d.represented u)) : (d.mapTo value).IsKeyedBy w := by
    rw [Schema.IsKeyedBy, d.propertyNames_mapTo, literals, List.map_congr_left listed]
  refine ⟨of_written, fun plain => of_written fun c _ => ?_, fun distinct => ⟨fun keyed => ?_,
    of_written⟩⟩
  · have texts : d.represented u = ⟨some .string, none⟩ := by
      rw [represented, plain]
    rw [texts]
    exact c.isListedAsWritten_of_plain d.name
  · rw [Schema.IsKeyedBy, d.propertyNames_mapTo, literals] at keyed
    exact List.map_inj_left.mp (eq_of_eraseDups_eq distinct (by simp) keyed)

/-- The literals of what was built for an enumeration without a directive of its own. -/
theorem Pass.BuiltFor.literalTexts {env : Environment} {z p q : Pass} {entry : String × Schema}
    {d : Decl} {t : TypeRef} {scope : Scope} (built : BuiltFor env z entry d t scope p q)
    (kind : d.kind = .enum) (plain : d.directives.get? .schema = none) :
    entry.2.literalTexts = d.visibleConstants.map fun c => Mangle.rendered
      (c.value d.name (d.represented env.types).type (d.represented env.types).format).1 := by
  obtain ⟨_, s, yields, same⟩ := built.built
  obtain ⟨rfl, -⟩ := (Compiler.yields_build_of_enum kind plain).mp yields
  have literals : entry.2.literalTexts = (d.enumSchema env.types).1.literalTexts := by
    rw [same]
    rfl
  rw [literals, Schema.literalTexts, Decl.literals_enumSchema, List.map_map]
  rfl

namespace Compiler

variable {c : Compiler} {env : Environment} {d : Decl} {key : TypeRef} {rest : List TypeRef}
  {scope : Scope} {p q : Pass} {s : Schema}

/-- A map from an enumeration defines the enumeration, and has the schema of the values for each of
its constants. -/
theorem exists_of_map_enum (enum : env.types.kindOf key = .enum d)
    (h : Yields (c.map env (key :: rest) scope) p s q) :
    ∃ reference p₁ found, Yields (c.define none key scope) p reference p₁ ∧
      Yields (c.argument env (rest.head?.getD .object) scope) p₁ found q ∧
      s = d.mapTo (found.getD .object) := by
  simp only [map, enum, unrolledMap, yields_bind, yields_noting, yields_pure] at h
  obtain ⟨reference, p₁, defined, found, p₂, resolved, _, _, ⟨rfl, rfl⟩, rfl, rfl⟩ := h
  obtain ⟨texts, silent⟩ := d.enumValues_of_plain
  refine ⟨reference, p₁, found, defined, ?_, ?_⟩
  · rw [silent, List.append_nil]
    exact resolved
  · have keys : ((d.enumValues (some .string) none).1.getD []).map
        (fun key => (Mangle.rendered key, found.getD .object)) =
          (d.visibleConstants.map Constant.written).map fun key => (key, found.getD .object) := by
      rw [texts, List.map_map, List.map_map]
      rfl
    rw [keys, Assoc.ofList_map_const, Decl.mapTo]

theorem grows_of_argument {depth : Nat} {value : TypeRef} {found : Option Schema}
    (h : Yields ((ofDepth env depth).argument env value scope) p found q) : Grows p q := by
  simp only [argument, schema?, yields_bind, yields_pure] at h
  obtain ⟨_, _, ⟨_, _, resolved, rfl, rfl⟩, -, rfl⟩ := h
  have takes : Takes (fun p _ q => Grows p q) ((ofDepth env depth).resolve none value scope) :=
    (frame_grows env).ofDepth depth (.resolve none value scope)
  exact takes.yields resolved

end Compiler

/-- What a map from an enumeration comes to between two states.  The enumeration is defined, and
registered unless its name was known before.  The values are resolved, and their schema, or else
that of any object, stands under the text of each constant that is shown. -/
def Decl.Unrolls (env : Environment) (depth : Nat) (d : Decl) (key value : TypeRef) (scope : Scope)
    (p : Pass) (s : Schema) (q : Pass) : Prop :=
  ∃ name p' found,
    Yields ((Compiler.ofDepth env depth).define none key scope) p (some (.reference name)) p' ∧
    Yields ((Compiler.ofDepth env depth).argument env value scope) p' found q ∧
    s = d.mapTo (found.getD .object) ∧
    (p.isKnown name = true ∨ ∃ w start last, (name, w) ∈ q.registry.schemas ∧
      BuiltFor env q (name, w) d key scope start last)

section

variable {env : Environment} {depth : Nat} {d : Decl} {key : TypeRef} {rest : List TypeRef}
  {scope : Scope} {p q : Pass} {s : Schema}

theorem unrolls_of_map (enum : env.types.kindOf key = .enum d)
    (plain : d.directives.get? .schema = none)
    (h : Yields ((Compiler.ofDepth env depth).map env (key :: rest) scope) p s q) :
    d.Unrolls env depth key (rest.head?.getD .object) scope p s q := by
  obtain ⟨declared, kind⟩ := Universe.declared_of_kindOf_enum enum
  obtain ⟨_, p', found, defined, resolved, rfl⟩ := Compiler.exists_of_map_enum enum h
  obtain ⟨name, rfl, known⟩ := exists_builtFor_of_define declared kind plain defined
  refine ⟨name, p', found, defined, resolved, rfl, known.imp_right ?_⟩
  rintro ⟨w, start, last, registered, built⟩
  have grows := Compiler.grows_of_argument resolved
  exact ⟨w, start, last, grows.schemas.subset registered,
    built.later grows.schemas grows.assigned grows.diagnostics⟩

theorem keysAgree_of_builtFor (enum : env.types.kindOf key = .enum d)
    (plain : d.directives.get? .schema = none)
    (h : Yields ((Compiler.ofDepth env depth).map env (key :: rest) scope) p s q) {z : Pass}
    {entry : String × Schema} {t : TypeRef} {scope' : Scope} {start last : Pass}
    (built : BuiltFor env z entry d t scope' start last) : d.KeysAgree env.types s entry.2 := by
  obtain ⟨_, _, found, -, -, rfl⟩ := Compiler.exists_of_map_enum enum h
  have kind := (Universe.declared_of_kindOf_enum enum).2
  exact Decl.keysAgree_mapTo _ (built.literalTexts kind plain)

/-- A map from an enumeration has a property for each of its constants, and whatever definition the
enumeration has, the names are its literals if all constants are listed there as they are
written. -/
theorem keysAgree_of_map (enum : env.types.kindOf key = .enum d)
    (plain : d.directives.get? .schema = none)
    (h : Yields ((Compiler.ofDepth env depth).map env (key :: rest) scope) p s q) :
    d.Unrolls env depth key (rest.head?.getD .object) scope p s q ∧
      ∀ z entry t scope start last, BuiltFor env z entry d t scope start last →
        d.KeysAgree env.types s entry.2 :=
  ⟨unrolls_of_map enum plain h, fun _ _ _ _ _ _ => keysAgree_of_builtFor enum plain h⟩

end

/-- Priorities that are represented by integers, one of them written as a word. -/
def priority : Decl where
  name := "com.acme.Priority"
  kind := .enum
  constants :=
    [{ name := "LOW", directives := [(.jsonProperty, [("value", .str "1")])] },
      { name := "HIGH", directives := [(.jsonProperty, [("value", .str "high")])] }]
  enumValueType := some (.plain "int")

def priorities : Environment where
  types := (Universe.initial .standard).insertAll [priority]
  config := {}

/-- A map from priorities to texts. -/
def limits : PassM Schema :=
  (Compiler.ofDepth priorities 3).map priorities [.plain "com.acme.Priority", .plain "string"] {}

theorem keysAgree_of_map_limits : ∃ s q, Yields limits {} s q ∧ s.propertyNames = ["1", "high"] ∧
    priority.Unrolls priorities 3 (.plain "com.acme.Priority") (.plain "string") {} {} s q ∧
    ∀ z entry t scope start last, BuiltFor priorities z entry priority t scope start last →
      priority.KeysAgree priorities.types s entry.2 := by
  have runs : passes limits {} (fun s => s.propertyNames = ["1", "high"]) = true := by
    decide +kernel
  obtain ⟨s, unrolled, names⟩ := exists_of_passes runs
  have enum : priorities.types.kindOf (.plain "com.acme.Priority") = .enum priority := rfl
  obtain ⟨unrolls, agree⟩ := keysAgree_of_map enum rfl unrolled
  exact ⟨s, _, unrolled, of_decide_eq_true names, unrolls, agree⟩

/-- The word is a key of the map, and the definition lists the name in its place. -/
theorem not_isKeyedBy_limits : ∃ s q, Yields limits {} s q ∧
    ∃ entry ∈ q.registry.schemas, ∃ t scope start last,
      BuiltFor priorities q entry priority t scope start last ∧ ¬ s.IsKeyedBy entry.2 := by
  have runs : passes limits {} (fun _ => true) = true := by
    decide +kernel
  obtain ⟨s, unrolled, -⟩ := exists_of_passes runs
  obtain ⟨name, _, _, -, -, -, known | ⟨w, start, last, registered, built⟩⟩ :=
    unrolls_of_map (d := priority) rfl rfl unrolled
  · cases known
  · refine ⟨s, _, unrolled, _, registered, _, _, _, _, built, fun keyed => ?_⟩
    have agree := keysAgree_of_builtFor rfl rfl unrolled built
    have listed := (agree.iff (by decide)).mp keyed
    revert listed
    decide +kernel

end Schemata
