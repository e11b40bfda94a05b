import Mathlib.Data.List.Forall2
import Mathlib.Data.List.Nodup
import Schemata.Proofs.Pass.Literals
import Schemata.Proofs.Pass.Registered
import Schemata.Proofs.Universe.Constants

/-!
# Enumerations

The definition of an enumeration lists its constants in their order.  What is written for a constant
is read as the enumeration is represented, and reported if it does not fit.  The name of a constant
is listed as it is: it may not fit, and is not reported.
-/
namespace Schemata

open Pass

theorem Pass.notes_withDiagnostics_iff {p : Pass} {ds : Diagnostics} {d : Diagnostic} :
    Notes p (p.withDiagnostics ds) d ↔ d ∈ ds := by
  refine ⟨fun ⟨noted, same, h⟩ => ?_, notes_withDiagnostics⟩
  rwa [List.append_cancel_left same]

/-! ### Single constants -/

namespace Constant

/-- A literal is of its type, or it was reported of the constant that it is not. -/
def Settles (c : Constant) (owner : String) (l : LiteralType) (p q : Pass) (value : Json) : Prop :=
  l.admits value = true ∨
    ∃ text message, Notes p q (.coercionFailed (owner ++ "." ++ c.name) text message)

/-- How a constant is listed: by its name, unless a text is written for it that is a value of the
type, and it is reported that a text is none. -/
structure ListedAs (c : Constant) (owner : String) (l : LiteralType) (p q : Pass)
    (value : Json) : Prop where
  unwritten : c.literal? = none → value = .str c.name
  written {text : String} : c.literal? = some text →
    l.admits value = true ∨ value = .str c.name ∧
      ∃ message, Notes p q (.coercionFailed (owner ++ "." ++ c.name) text message)
  settles : c.literal?.isSome ∨ l.admits (.str c.name) = true → c.Settles owner l p q value

variable {c : Constant} {cs : List Constant} {owner : String} {l : LiteralType} {p q : Pass}

/-- A constant is listed so if all that is to be noted of it is noted. -/
theorem listedAs_value (noted : ∀ d ∈ (c.value owner l.type l.format).2, Notes p q d) :
    c.ListedAs owner l p q (c.value owner l.type l.format).1 := by
  have written {text : String} (h : c.literal? = some text) :
      l.admits (c.value owner l.type l.format).1 = true ∨
        (c.value owner l.type l.format).1 = .str c.name ∧
          ∃ message, Notes p q (.coercionFailed (owner ++ "." ++ c.name) text message) := by
    cases read : Coerce.value text l.type l.format with
    | ok value =>
      rw [value_of_read h read]
      exact .inl (Coerce.admits_of_value read)
    | error e =>
      rw [value_of_failed h read] at noted ⊢
      exact .inr ⟨rfl, e.message, noted _ (List.mem_singleton_self _)⟩
  refine ⟨fun h => by rw [value_of_unwritten h], written, ?_⟩
  rintro (some_ | fits)
  · obtain ⟨text, h⟩ := Option.isSome_iff_exists.mp some_
    exact (written h).imp id fun ⟨_, message, reported⟩ => ⟨text, message, reported⟩
  · cases h : c.literal? with
    | none =>
      rw [value_of_unwritten h]
      exact .inl fits
    | some text =>
      exact (written h).imp id fun ⟨_, message, reported⟩ => ⟨text, message, reported⟩

/-- What is noted of a constant was written for that constant, if no two share a name. -/
theorem isSome_literal?_of_noted (distinct : (cs.map Constant.name).Nodup) (hc : c ∈ cs)
    {text message : String}
    (h : .coercionFailed (owner ++ "." ++ c.name) text message ∈
      cs.flatMap fun c => (c.value owner l.type l.format).2) : c.literal?.isSome := by
  obtain ⟨other, hother, noted⟩ := List.mem_flatMap.mp h
  obtain ⟨_, _, literal, same⟩ := Constant.of_mem_value noted
  have subject : owner ++ "." ++ c.name = owner ++ "." ++ other.name :=
    congrArg Diagnostic.subject same
  have name : c.name = other.name := by simpa [← String.toList_inj] using subject
  obtain rfl := List.inj_on_of_nodup_map distinct hc hother name
  rw [literal, Option.isSome_some]

/-- A constant is listed so among others. -/
theorem listedAs_of_mem (hc : c ∈ cs) : c.ListedAs owner l p
    (p.withDiagnostics (cs.flatMap fun c => (c.value owner l.type l.format).2))
    (c.value owner l.type l.format).1 :=
  listedAs_value fun _ h => notes_withDiagnostics (List.mem_flatMap.mpr ⟨c, hc, h⟩)

/-- Among others that do not share its name, a constant is settled only by its text or by a name
that is of the type. -/
theorem settles_iff_of_mem (distinct : (cs.map Constant.name).Nodup) (hc : c ∈ cs) :
    c.Settles owner l p
        (p.withDiagnostics (cs.flatMap fun c => (c.value owner l.type l.format).2))
        (c.value owner l.type l.format).1 ↔
      c.literal?.isSome ∨ l.admits (.str c.name) = true := by
  refine ⟨?_, (listedAs_of_mem hc).settles⟩
  rintro (admitted | ⟨_, _, noted⟩)
  · cases h : c.literal? with
    | none =>
      rw [value_of_unwritten h] at admitted
      exact .inr admitted
    | some _ => exact .inl rfl
  · exact .inl (isSome_literal?_of_noted distinct hc (notes_withDiagnostics_iff.mp noted))

end Constant

/-! ### Whole enumerations -/

namespace Decl

/-- Each literal of an enumeration is of its type, or it was reported of its constant that it is
not. -/
def SettlesConstants (d : Decl) (p q : Pass) (s : Schema) : Prop :=
  List.Forall₂ (fun c value => c.Settles d.name ⟨s.type, s.facets.format⟩ p q value)
    d.visibleConstants (s.facets.enumValues.getD [])

/-- What the schema of an enumeration lists that was made between two states: one literal for each
constant that is shown, in their order.  If no two of them share a name, all literals are settled
exactly if each constant has a text or a name that is of the type. -/
structure ListsConstants (u : Universe) (d : Decl) (p q : Pass) (s : Schema) : Prop where
  type : s.type = some (u.representationOfEnum d).1
  format : s.facets.format = (u.representationOfEnum d).2
  listed : List.Forall₂ (fun c value => c.ListedAs d.name ⟨s.type, s.facets.format⟩ p q value)
    d.visibleConstants (s.facets.enumValues.getD [])
  settles_iff : (d.visibleConstants.map Constant.name).Nodup →
    (d.SettlesConstants p q s ↔ ∀ c ∈ d.visibleConstants, c.literal?.isSome ∨
      LiteralType.admits ⟨s.type, s.facets.format⟩ (.str c.name) = true)

/-- What the constants are read as where the enumeration is defined. -/
def represented (u : Universe) (d : Decl) : LiteralType :=
  ⟨some (u.representationOfEnum d).1, (u.representationOfEnum d).2⟩

theorem literals_enumSchema (u : Universe) (d : Decl) :
    (d.enumSchema u).1.facets.enumValues.getD [] = d.visibleConstants.map fun c =>
      (c.value d.name (d.represented u).type (d.represented u).format).1 :=
  d.enumValues_listed _ _

theorem noted_enumSchema (u : Universe) (d : Decl) :
    (d.enumSchema u).2 = d.visibleConstants.flatMap fun c =>
      (c.value d.name (d.represented u).type (d.represented u).format).2 :=
  d.enumValues_noted _ _

theorem listsConstants_enumSchema (u : Universe) (d : Decl) (p : Pass) :
    d.ListsConstants u p (p.withDiagnostics (d.enumSchema u).2) (d.enumSchema u).1 := by
  refine ⟨rfl, rfl, ?_, fun distinct => ?_⟩
  · rw [literals_enumSchema, noted_enumSchema, List.forall₂_map_right_iff, List.forall₂_same]
    exact fun c hc => Constant.listedAs_of_mem hc
  · rw [SettlesConstants, literals_enumSchema, noted_enumSchema, List.forall₂_map_right_iff,
      List.forall₂_same]
    exact forall₂_congr fun c hc => Constant.settles_iff_of_mem distinct hc

end Decl

/-! ### Registered enumerations -/

/-- An enumeration without a directive of its own is built of its constants alone. -/
theorem Compiler.yields_build_of_enum {c : Compiler} {env : Environment} {d : Decl} {t : TypeRef}
    {scope : Scope} {p q : Pass} {s : Schema} (kind : d.kind = .enum)
    (plain : d.directives.get? .schema = none) :
    Yields (c.build env d t scope) p s q ↔
      (d.enumSchema env.types).1 = s ∧ p.withDiagnostics (d.enumSchema env.types).2 = q := by
  simp only [build, declaredSchema, if_pos kind, overlayOwn, plain, yields_bind, yields_noting,
    yields_pure]
  constructor
  · rintro ⟨_, _, ⟨rfl, rfl⟩, rfl, rfl⟩
    exact ⟨rfl, rfl⟩
  · rintro ⟨rfl, rfl⟩
    exact ⟨_, _, ⟨rfl, rfl⟩, rfl, rfl⟩

/-- What is built for an enumeration without a directive of its own lists its constants. -/
theorem Pass.BuiltFor.listsConstants {env : Environment} {z p q : Pass} {entry : String × Schema}
    {d : Decl} {t : TypeRef} {scope : Scope} (built : BuiltFor env z entry d t scope p q)
    (kind : d.kind = .enum) (plain : d.directives.get? .schema = none) :
    d.ListsConstants env.types p q entry.2 := by
  obtain ⟨_, s, yields, same⟩ := built.built
  obtain ⟨rfl, rfl⟩ := (Compiler.yields_build_of_enum kind plain).mp yields
  have listed := d.listsConstants_enumSchema env.types p
  rw [same]
  exact ⟨listed.type, listed.format, listed.listed, listed.settles_iff⟩

/-- Defining an enumeration without a directive of its own registers what is built for it, unless
its name was known before. -/
theorem exists_builtFor_of_define {env : Environment} {depth : Nat} {element : Option Element}
    {d : Decl} {t : TypeRef} {scope : Scope} {p q : Pass} {found : Option Schema}
    (declared : env.types.declOf? t = some d) (kind : d.kind = .enum)
    (plain : d.directives.get? .schema = none)
    (h : Yields ((Compiler.ofDepth env depth).define element t scope) p found q) :
    ∃ name, found = some (.reference name) ∧
      (p.isKnown name = true ∨ ∃ w start last, (name, w) ∈ q.registry.schemas ∧
        BuiltFor env q (name, w) d t scope start last) := by
  obtain ⟨inner, rfl, defines⟩ := Compiler.yields_define_ofDepth h
  cases defines with
  | undeclared unknown => cases unknown.symm.trans declared
  | @known _ name _ _ _ known => exact ⟨name, rfl, .inl known⟩
  | @built d' name names s q' declared' named new built =>
    obtain rfl := Option.some.inj (declared'.symm.trans declared)
    have unregistered : q'.registry.contains name = false := by
      obtain ⟨-, rfl⟩ := (Compiler.yields_build_of_enum kind plain).mp built
      rw [Registry.contains]
      exact (congrArg (Assoc.contains · name) (schemas_startName name _)).trans
        (isKnown_eq_false_iff.mp new).1
    refine ⟨name, ?_, .inr ⟨_, _, _, mem_schemas_withSchema_self unregistered,
      builtFor_withSchema declared' named built⟩⟩
    rw [Decl.definedReference, kind]

/-- The first occurrence of an enumeration that nothing is put in the place of registers it. -/
theorem exists_builtFor_of_resolve {env : Environment} {depth : Nat} {d : Decl} {t : TypeRef}
    {scope : Scope} {p q : Pass} {found : Option Resolved}
    (opens : (openOccurrence env none t).1.type = t) (enum : env.types.kindOf t = .enum d)
    (plain : d.directives.get? .schema = none) (fresh : ∀ name, p.isKnown name = false)
    (h : Yields ((Compiler.ofDepth env depth).resolve none t scope) p found q) :
    ∃ entry ∈ q.registry.schemas, ∃ start last, BuiltFor env q entry d t scope start last := by
  obtain ⟨inner, rfl, occurs⟩ := Compiler.yields_resolve_ofDepth h
  obtain ⟨s, opened, -⟩ := Compiler.yields_occurrence.mp occurs
  rw [opens, Compiler.opened, enum] at opened
  obtain ⟨declared, kind⟩ := Universe.declared_of_kindOf_enum enum
  obtain ⟨name, -, known | ⟨w, start, last, registered, built⟩⟩ :=
    exists_builtFor_of_define declared kind plain opened
  · cases (fresh name).symm.trans known
  · exact ⟨(name, w), registered, start, last, built⟩

/-- Every registered schema was built for a declared type, and lists its constants if that is an
enumeration without a directive of its own. -/
theorem listsConstants_of_registered (env : Environment) (rs : List Request)
    {entry : String × Schema} (registered : entry ∈ (after env rs).registry.schemas) :
    (∃ d t scope p q, BuiltFor env (after env rs) entry d t scope p q) ∧
      ∀ d t scope p q, BuiltFor env (after env rs) entry d t scope p q → d.kind = .enum →
        d.directives.get? .schema = none → d.ListsConstants env.types p q entry.2 :=
  ⟨exists_builtFor env rs registered, fun _ _ _ _ _ built => built.listsConstants⟩

/-- Codes that are represented by integers, with a name only. -/
def code : Decl where
  name := "com.acme.Code"
  kind := .enum
  constants := [{ name := "A" }]
  enumValueType := some (.plain "int")

def codes : Environment where
  types := (Universe.initial .standard).insertAll [code]
  config := {}

def codeRequest : Request := { type := .plain "com.acme.Code" }

theorem listsConstants_of_registered_code :
    ∃ entry ∈ (after codes [codeRequest]).registry.schemas,
      entry.1 = "Code" ∧
        (∃ d t scope p q, BuiltFor codes (after codes [codeRequest]) entry d t scope p q) ∧
        ∀ d t scope p q, BuiltFor codes (after codes [codeRequest]) entry d t scope p q →
          d.kind = .enum → d.directives.get? .schema = none →
            d.ListsConstants codes.types p q entry.2 := by
  have listed : ((after codes [codeRequest]).registry.schemas.any fun entry =>
      entry.1 == "Code") = true := by
    decide +kernel
  obtain ⟨entry, hentry, name⟩ := List.any_eq_true.mp listed
  exact ⟨entry, hentry, beq_iff_eq.mp name, listsConstants_of_registered _ _ hentry⟩

/-- A name is listed among integers, and nothing is reported. -/
theorem not_settlesConstants_code :
    ¬ ∀ entry ∈ (after codes [codeRequest]).registry.schemas, ∀ d t scope p q,
      BuiltFor codes (after codes [codeRequest]) entry d t scope p q → d.kind = .enum →
        d.directives.get? .schema = none → d.SettlesConstants p q entry.2 := by
  intro settles
  have runs : passes ((Compiler.serving codes none codeRequest.type).resolve none codeRequest.type
      {}) {} (fun _ => true) = true := by
    decide +kernel
  obtain ⟨found, resolved, -⟩ := exists_of_passes runs
  obtain ⟨entry, registered, p, q, built⟩ :=
    exists_builtFor_of_resolve (d := code) rfl rfl rfl (fun _ => rfl) resolved
  have listed := built.listsConstants rfl rfl
  have settled := settles entry registered code _ _ p q built rfl rfl
  have unsettled := (listed.settles_iff (by decide)).mp settled _ (List.mem_singleton_self _)
  rw [listed.type, listed.format] at unsettled
  revert unsettled
  decide +kernel

end Schemata
