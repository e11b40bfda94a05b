import Mathlib.Data.List.Forall2
import Schemata.Proofs.Naming.Distinct
import Schemata.Proofs.Pass.Contract
import Schemata.Proofs.Pass.Omission
import Schemata.Proofs.Schema.Properties
import Schemata.Proofs.Universe.Preorder

/-!
# Compositions with ancestors

A definition that is composed with its ancestors is an object that lists references to them, each
once and in the order of their visit, and after them what the members add to an object, if they
add anything.
-/
namespace Schemata

open Pass

/-! ### References in a composition -/

namespace Schema

theorem eqv_reference (a b : String) : (reference a).eqv (reference b) = (a == b) := by
  have facets : ({} : Facets).eqv {} = true := by decide
  have paths : (some (componentsPath ++ a) == some (componentsPath ++ b)) = (a == b) := by
    by_cases same : a = b
    · simp [same]
    · simp [same]
  simp only [reference, eqv, eqvOption, eqvList, eqvProperties, eqvAdditional, facets, paths]
  simp

theorem memberOf_reference (name : String) (names : List String) :
    (reference name).memberOf (names.map reference) = names.contains name := by
  rw [memberOf, List.any_map, List.contains_eq_any_beq]
  refine congrArg (names.any ·) (funext fun other => ?_)
  exact (eqv_reference other name).trans Bool.beq_comm

end Schema

theorem exists_of_forall₂ {r : α → β → Prop} {as : List α} {bs : List β} {b : β}
    (h : List.Forall₂ r as bs) (mem : b ∈ bs) : ∃ a ∈ as, r a b := by
  induction h with
  | nil => cases mem
  | cons first _ ih =>
    rcases List.mem_cons.mp mem with rfl | mem
    · exact ⟨_, List.mem_cons_self, first⟩
    · obtain ⟨a, ha, h⟩ := ih mem
      exact ⟨a, List.mem_cons_of_mem _ ha, h⟩

namespace Schema

/-- References are added to a composition once each. -/
theorem foldl_pushNew_reference {known : List String} (names : List String)
    (distinct : known.Nodup) :
    (names.map reference).foldl pushNew (known.map reference) =
      (known ++ names).eraseDups.map reference := by
  induction names generalizing known with
  | nil => rw [List.append_nil, eraseDups_of_nodup distinct, List.map_nil, List.foldl_nil]
  | cons name rest ih =>
    rw [List.map_cons, List.foldl_cons, pushNew, memberOf_reference]
    by_cases listed : name ∈ known
    · rw [if_pos (by simpa using listed), ih distinct, eraseDups_append_cons listed]
    · have distinct' : (known ++ [name]).Nodup := by
        rw [List.nodup_append]
        refine ⟨distinct, by simp, fun a ha b hb same => listed ?_⟩
        rw [List.mem_singleton.mp hb] at same
        exact same ▸ ha
      have step : known.map reference ++ [reference name] = (known ++ [name]).map reference := by
        simp
      rw [if_neg (by simpa using listed), step, ih distinct', List.append_assoc,
        List.singleton_append]

/-- A composition with some references becomes an object once properties were added, and those
that were added to it are its last part. -/
theorem settled_addAll_references {names : List String} (nonempty : names ≠ [])
    (added : List Property) :
    (({ allOf := names.map reference } : Schema).addAll added).settled =
      { type := some .object
        allOf := names.map reference ++
          if (object.addAll added).properties.isEmpty then [] else [object.addAll added] } := by
  have composed : (names.map reference).isEmpty = false := by simpa using nonempty
  rw [addAll_eq object, addAll_eq { allOf := _ }, settled, composed, if_neg Bool.false_ne_true]
  dsimp only [object, typed]
  by_cases none : (({} : Schema).addAll added).properties = []
  · have optional := required_addAll_eq_nil (s := {}) rfl none
    simp [none, optional]
  · simp [none]

end Schema

/-! ### Ancestors -/

/-- The candidate and the origin of a declared type. -/
def Environment.keyOf? (env : Environment) (t : TypeRef) (scope : Scope) :
    Option (String × String) :=
  (env.types.declOf? t).bind fun d =>
    (d.nameRequest none t scope).candidate env.config env.types

namespace Pass

/-- A pass has given a name to a type, and has a definition of that name or is about to. -/
structure KnowsAs (q : Pass) (env : Environment) (scope : Scope) (t : TypeRef) (name : String) :
    Prop where
  assigned : ∃ key, env.keyOf? t scope = some key ∧ q.names.assigned.get? key = some name
  known : q.isKnown name = true

variable {env : Environment} {scope : Scope} {t : TypeRef} {name : String} {p q : Pass}

theorem KnowsAs.later (h : p.KnowsAs env scope t name) (grows : Grows p q) :
    q.KnowsAs env scope t name := by
  obtain ⟨key, hkey, assigned⟩ := h.assigned
  exact ⟨⟨key, hkey, grows.assigned assigned⟩, grows.isKnown h.known⟩

/-- Types with different keys have different names where a table of names tells keys apart. -/
theorem nodup_of_knowsAs {ancestors : List TypeRef} {names : List String}
    (named : List.Forall₂ (q.KnowsAs env scope) ancestors names)
    (keys : ancestors.Pairwise fun a b => env.keyOf? a scope ≠ env.keyOf? b scope)
    (apart : q.names.TellsApart) : names.Nodup := by
  induction named with
  | nil => exact .nil
  | @cons a name ancestors names first rest ih =>
    obtain ⟨other, keys⟩ := List.pairwise_cons.mp keys
    refine List.nodup_cons.mpr ⟨fun again => ?_, ih keys⟩
    obtain ⟨b, hb, named⟩ := exists_of_forall₂ rest again
    obtain ⟨key, hkey, assigned⟩ := first.assigned
    obtain ⟨key', hkey', assigned'⟩ := named.assigned
    have same : key = key' := apart key key' name assigned assigned'
    exact other b hb (by rw [hkey, hkey', same])

end Pass

namespace Compiler

variable {env : Environment} {scope : Scope} {t : TypeRef} {d : Decl} {p q : Pass} {depth : Nat}

/-- A record or an interface is answered with a plain reference to its name, which is known from
then on. -/
theorem knowsAs_of_define {found : Option Schema}
    (declared : env.types.declOf? t = some d) (kind : d.kind = .record ∨ d.kind = .interface)
    (h : Yields ((ofDepth env depth).define none t scope) p found q) :
    ∃ name, found = some (.reference name) ∧ q.KnowsAs env scope t name := by
  obtain ⟨inner, rfl, defines⟩ := yields_define_ofDepth h
  have key {d' : Decl} {name : String} {names : NameTable}
      (declared' : env.types.declOf? t = some d')
      (named : p.names.compute env.config env.types (d'.nameRequest none t scope) =
        some (.ok (name, names))) :
      ∃ key, env.keyOf? t scope = some key ∧ names.assigned.get? key = some name := by
    obtain ⟨key, hkey, assigned⟩ := NameTable.given_of_compute named
    exact ⟨key, by rw [Environment.keyOf?, declared', Option.bind_some, hkey], assigned⟩
  cases defines with
  | undeclared unknown => cases unknown.symm.trans declared
  | known declared' named known => exact ⟨_, rfl, key declared' named, known⟩
  | @built d' name names s q' declared' named new built =>
    obtain rfl : d' = d := Option.some.inj (declared'.symm.trans declared)
    have plain : d'.definedReference name (d'.documented s) = .reference name := by
      unfold Decl.definedReference
      rcases kind with kind | kind <;> rw [kind]
    -- The name is assigned before the schema is built, and no name is taken back meanwhile.
    obtain ⟨key, hkey, assigned⟩ := key declared named
    have body := (frame_grows env).build ((frame_grows env).ofDepth inner) d' t scope
    exact ⟨name, by rw [plain], ⟨key, hkey, (built.grows body).assigned assigned⟩,
      isKnown_withSchema_self _ _ _⟩

/-- Ancestors are added as references, one after the other. -/
theorem knowsAs_of_addAncestors {ancestors : List TypeRef} {parent s : Schema}
    (declared : ∀ a ∈ ancestors, ∃ d, env.types.declOf? a = some d ∧
      (d.kind = .record ∨ d.kind = .interface))
    (h : Yields (ancestors.foldlM ((ofDepth env depth).addAncestor scope) parent) p s q) :
    Grows p q ∧ ∃ names, List.Forall₂ (q.KnowsAs env scope) ancestors names ∧
      s = { parent with
        allOf := (names.map Schema.reference).foldl Schema.pushNew parent.allOf } := by
  induction ancestors generalizing parent p with
  | nil =>
    obtain ⟨rfl, rfl⟩ := yields_pure.mp h
    exact ⟨.refl _, [], .nil, by cases parent; rfl⟩
  | cons a ancestors ih =>
    rw [List.foldlM_cons] at h
    obtain ⟨next, p', first, rest⟩ := yields_bind.mp h
    obtain ⟨found, p₁, defines, first⟩ := yields_bind.mp first
    obtain ⟨d, hd, kind⟩ := declared a List.mem_cons_self
    have call : Schemata.Respects Grows ((ofDepth env depth).define none a scope) :=
      (frame_grows env).ofDepth depth (.define none a scope)
    have step : Grows p p₁ := call.yields defines
    obtain ⟨name, rfl, knows⟩ := knowsAs_of_define hd kind defines
    obtain ⟨rfl, rfl⟩ := yields_pure.mp first
    obtain ⟨grows, names, named, rfl⟩ :=
      ih (fun a ha => declared a (List.mem_cons_of_mem _ ha)) rest
    exact ⟨step.trans grows, name :: names, .cons (knows.later grows) named, rfl⟩

end Compiler

/-! ### Flattened definitions -/

/-- What is built for an occurrence lists the names of its ancestors, in the order of their visit
and each name once, and after them the object that the members make once the ancestors are
defined, unless it has no properties.  Ancestors with different keys have different names as long
as the table of names tells keys apart. -/
structure Flattened (env : Environment) (c : Compiler) (d : Decl) (t : TypeRef) (scope : Scope)
    (p : Pass) (s : Schema) (q : Pass) (ancestors : List TypeRef) (names : List String)
    (own : Schema) : Prop where
  lineage : env.types.IsLineage t d ancestors
  named : List.Forall₂ (q.KnowsAs env scope) ancestors names
  distinct : ancestors.Pairwise (fun a b => env.keyOf? a scope ≠ env.keyOf? b scope) →
    q.names.TellsApart → names.Nodup
  members : ∃ start r, Yields (c.recordStart env d (env.types.bindings t) scope) p start r ∧
    Yields (c.addMembers env d (env.types.bindings t) scope .object) r own q
  object : own = { Schema.object with properties := own.properties, required := own.required }
  schema : s =
    { type := some .object
      allOf := names.eraseDups.map .reference ++ if own.properties.isEmpty then [] else [own] }

namespace Compiler

variable {env : Environment} {scope : Scope} {t : TypeRef} {d : Decl} {p q : Pass} {depth : Nat}
  {s : Schema}

/-- Some ancestor other than the type itself takes part in its definition. -/
theorem lineage_ne_nil {u : Universe} {ancestors : List TypeRef} (h : u.IsLineage t d ancestors)
    {a : TypeRef} (descends : u.Descends t a) (other : u.declaredName? a ≠ some d.name) :
    ancestors ≠ [] := by
  obtain ⟨own, declared, -⟩ := Universe.declared_of_descends descends
  have named : u.declaredName? a = some own.name := by
    rw [Universe.declaredName?, declared, Option.map_some]
  have differs : own.name ≠ d.name := fun same => other (same ▸ named)
  obtain ⟨b, hb, -⟩ := (h.complete own.name).mpr ⟨differs, a, descends, named⟩
  exact List.ne_nil_of_mem hb

/-- A type with ancestors starts as the composition of references to them. -/
theorem knowsAs_of_recordStart {ancestors : List TypeRef}
    (entered : env.types.lineage d (env.types.bindings t) = ancestors) (nonempty : ancestors ≠ [])
    (lineage : env.types.IsLineage t d ancestors)
    (h : Yields ((ofDepth env depth).recordStart env d (env.types.bindings t) scope) p s q) :
    ∃ names, names.eraseDups ≠ [] ∧ List.Forall₂ (q.KnowsAs env scope) ancestors names ∧
      s = { allOf := names.eraseDups.map .reference } := by
  have parents : (env.types.composedParents d).isEmpty = false := by
    refine Bool.eq_false_iff.mpr fun empty => nonempty ?_
    rw [← entered, Universe.lineage, List.isEmpty_iff.mp empty, List.map_nil]
    cases env.types.lineageSteps d <;> rfl
  rw [Compiler.recordStart, parents, if_neg Bool.false_ne_true, entered] at h
  obtain ⟨later, visits⟩ := lineage.preorder
  obtain ⟨-, names, named, same⟩ := knowsAs_of_addAncestors
    (fun a ha => Universe.declared_of_descends (visits.descends a ha)) h
  refine ⟨names, ?_, named, ?_⟩
  · cases named with
    | nil => exact absurd rfl nonempty
    | cons => simp [List.eraseDups_cons]
  · rw [same]
    exact congrArg (fun parts => ({ allOf := parts } : Schema))
      (Schema.foldl_pushNew_reference names List.nodup_nil)

/-- A type that descends from another one is defined as a composition with its ancestors. -/
theorem flattened_of_build (keyed : env.types.Keyed) (declared : env.types.declOf? t = some d)
    (kind : d.kind ≠ .enum) (bare : d.directives.get? .schema = none)
    (descends : ∃ a, env.types.Descends t a ∧ env.types.declaredName? a ≠ some d.name)
    (h : Yields ((ofDepth env depth).build env d t scope) p s q) :
    ∃ ancestors names own,
      Flattened env (ofDepth env depth) d t scope p s q ancestors names own := by
  have lineage := keyed.isLineage declared
  obtain ⟨a, descends, other⟩ := descends
  obtain ⟨s', q', declares, overlaid⟩ := yields_bind.mp h
  rw [Compiler.overlayOwn, bare] at overlaid
  obtain ⟨rfl, rfl⟩ := yields_pure.mp overlaid
  obtain ⟨enum, -⟩ | ⟨-, start, p₁, filled, starts, members, rfl⟩ := declaredSchema_cases declares
  · exact absurd enum kind
  -- The members are added last, and what they add does not depend on the composition.
  have grows := (later_of_addMembers ((frame_grows env).ofDepth depth) members).1
  obtain ⟨names, nonempty, named, rfl⟩ :=
    knowsAs_of_recordStart rfl (lineage_ne_nil lineage descends other) lineage starts
  have later := named.imp fun _ _ knows => KnowsAs.later knows grows
  obtain ⟨added, rfl, others, -⟩ := exists_added_of_addMembers members
  exact ⟨_, names, Schema.object.addAll added, {
    lineage := lineage
    named := later
    distinct := nodup_of_knowsAs later
    members := ⟨_, p₁, starts, others .object⟩
    object := by rw [Schema.addAll_eq]
    schema := Schema.settled_addAll_references nonempty added }⟩

end Compiler

namespace Pass

/-- However its ancestors are related, a declared record or interface that descends from another
type is defined as the composition with all of them. -/
theorem flattened_build {env : Environment} {n : Normalizer} {ds : List Decl}
    (loaded : env.types = (Universe.initial n).insertAll ds) {t : TypeRef} {d : Decl}
    (declared : env.types.declOf? t = some d) (kind : d.kind = .record ∨ d.kind = .interface)
    (bare : d.directives.get? .schema = none)
    (descends : ∃ a, env.types.Descends t a ∧ env.types.declaredName? a ≠ some d.name)
    {depth : Nat} {scope : Scope} {p q : Pass} {s : Schema}
    (h : Yields ((Compiler.ofDepth env depth).build env d t scope) p s q) :
    ∃ ancestors names own,
      Flattened env (Compiler.ofDepth env depth) d t scope p s q ancestors names own := by
  have keyed : env.types.Keyed := loaded ▸ Universe.keyed_insertAll n ds
  have other : d.kind ≠ .enum := by
    rcases kind with kind | kind <;> simp [kind]
  exact Compiler.flattened_of_build keyed declared other bare descends h

/-- An interface above which two others have a common ancestor, and one of them leads back. -/
def bothSides : Decl :=
  { name := "com.acme.Both", kind := .interface,
    interfaces := [.generic "com.acme.Left" [.plain "string"], .plain "com.acme.Right"],
    members := [{ name := "both", type := .plain "int" }] }

def diamond : List Decl :=
  [{ name := "com.acme.Base", kind := .interface, params := [⟨"T", []⟩],
     members := [{ name := "base", type := .plain "T" }] },
    { name := "com.acme.Left", kind := .interface, params := [⟨"T", []⟩],
      interfaces := [.generic "com.acme.Base" [.plain "T"]],
      members := [{ name := "left", type := .plain "T" }] },
    { name := "com.acme.Right", kind := .interface,
      interfaces := [.generic "com.acme.Base" [.plain "int"], .plain "com.acme.Both"],
      members := [{ name := "right", type := .plain "int" }] }, bothSides]

/-- A universe with the diamond, seen through the standard configuration. -/
def diamonds : Environment where
  types := (Universe.initial .standard).insertAll diamond
  config := {}

def bothRequest : TypeRef := .plain "com.acme.Both"

theorem flattened_build_diamond :
    diamonds.types.declOf? bothRequest = some bothSides ∧
    (∃ a, diamonds.types.Descends bothRequest a ∧
      diamonds.types.declaredName? a ≠ some bothSides.name) ∧
    ∃ s q, Yields ((Compiler.ofDepth diamonds 6).build diamonds bothSides bothRequest {}) {} s q ∧
      ∃ ancestors names own, Flattened diamonds (Compiler.ofDepth diamonds 6) bothSides bothRequest
        {} {} s q ancestors names own := by
  have declared : diamonds.types.declOf? bothRequest = some bothSides := by rfl
  have above : TypeRef.generic "com.acme.Left" [.plain "string"] ∈
      diamonds.types.composedOf bothRequest := List.mem_of_getElem? (i := 0) (by rfl)
  have descends : ∃ a, diamonds.types.Descends bothRequest a ∧
      diamonds.types.declaredName? a ≠ some bothSides.name :=
    ⟨_, .single above, by decide +kernel⟩
  obtain ⟨s, built⟩ := exists_of_stop? (p := {})
    (m := (Compiler.ofDepth diamonds 6).build diamonds bothSides bothRequest {})
    (by decide +kernel)
  exact ⟨declared, descends, s, _, built,
    flattened_build rfl declared (.inr rfl) rfl descends built⟩

/-- The common ancestor is listed once, with the argument of the first way that leads to it. -/
example : (((Compiler.ofDepth diamonds 6).build diamonds bothSides bothRequest {}).run.run
    {}).1.toOption.map (fun s => s.allOf.map Schema.refName?) =
      some [some "Left_string_", some "Base_string_", some "Right", none] := by
  decide +kernel

end Pass

end Schemata
