import Schemata.Proofs.Pass.Confinement
import Schemata.Proofs.Pass.Registered
import Schemata.Proofs.Schema.Collection

/-!
# Unwrapping

The properties of an unwrapped member take its place.  They are those of all that the definition
of its type is composed of, as far as that is registered when the member is met, and each is
required if the node requires it that has it.  So nothing is lost unless a definition is met while
it is still being built, or a name is required on another node than the one that has the property.
-/
namespace Schemata

open Pass

/-! ### Directives over a definition -/

/-- Names that are added unless they are listed. -/
theorem mem_foldl_addNew {names added : List String} {name : String} :
    name ∈ added.foldl (fun names name => if names.contains name then names else names ++ [name])
      names ↔ name ∈ names ∨ name ∈ added := by
  induction added generalizing names with
  | nil => simp
  | cons first rest ih =>
    refine ih.trans ?_
    rw [List.mem_cons, ← or_assoc]
    refine or_congr_left ?_
    dsimp only
    split
    · rename_i listed
      exact ⟨.inl, fun h => h.elim id fun same => same ▸ List.contains_iff_mem.mp listed⟩
    · rw [List.mem_append, List.mem_singleton]

namespace Schema

/-- What a directive leaves of the properties, the required names and the parts of a schema. -/
structure AmendedBy (d : Directive) (s t : Schema) : Prop where
  properties : t.properties = s.properties
  required {name : String} :
    name ∈ t.required ↔ name ∈ s.required ∨ name ∈ d.texts "requiredProperties"
  parts : s.allOf ⊆ t.allOf
  alone : d.texts "allOf" = [] → t.allOf = s.allOf

namespace AmendedBy

variable {d : Directive} {s t : Schema} {property : String × Schema} {name : String}

theorem lists (h : s.AmendedBy d t) (listed : s.Lists property) : t.Lists property := by
  cases listed with
  | own own => exact .own (h.properties ▸ own)
  | part hpart inline inner => exact .part (h.parts hpart) inline inner

theorem requires (h : s.AmendedBy d t) (required : s.Requires name) : t.Requires name := by
  cases required with
  | own own => exact .own (h.required.mpr (.inl own))
  | part hpart inline inner => exact .part (h.parts hpart) inline inner

theorem lists_of (h : s.AmendedBy d t) (alone : d.texts "allOf" = []) (listed : t.Lists property) :
    s.Lists property :=
  listed.congr h.properties.symm (h.alone alone).symm

theorem requires_of (h : s.AmendedBy d t) (alone : d.texts "allOf" = [])
    (silent : name ∉ d.texts "requiredProperties") (required : t.Requires name) :
    s.Requires name := by
  cases required with
  | own own => exact .own ((h.required.mp own).resolve_right silent)
  | part hpart inline inner => exact .part (h.alone alone ▸ hpart) inline inner

end AmendedBy

end Schema

namespace Compiler

variable {c : Compiler} {env : Environment} {element : Option Element} {type : TypeRef}
  {p q : Pass} {s t : Schema} {d : Directive} {subject : String}

theorem amendedBy_overlay (hm : Yields (c.overlay env s d element type) p t q) :
    s.AmendedBy d t := by
  obtain ⟨_, _, _, all, _, _, none, rfl⟩ := exists_of_overlay hm
  exact {
    properties := rfl
    required := mem_foldl_addNew
    parts := Schema.subset_pushAll _ _
    alone := fun alone => by
      rw [none alone]
      rfl }

end Compiler

/-! ### What members supply -/

namespace Directive

theorem affixed_inj {d : Directive} {name other : String} :
    d.affixed name = d.affixed other ↔ name = other := by
  simp only [affixed, ← String.toList_inj, String.toList_append, List.append_left_inj,
    List.append_right_inj]

/-- The properties that take the place of an unwrapped member. -/
def inlines (d : Directive) (r : Registry) (found : Option Resolved) : List Property :=
  match found with
  | none => []
  | some found => (found.schema.allProperties r).map fun p => { p with name := d.affixed p.name }

end Directive

namespace Compiler

variable {c : Compiler} {env : Environment} {owner : Decl} {bindings : Bindings} {scope : Scope}
  {p q : Pass} {parent s : Schema} {m : Member} {ms : List Member} {d : Directive}

/-- An unwrapped member adds the properties that its type comes to. -/
theorem inlines_of_addMember (visible : m.isVisible env owner scope.view = true)
    (unwraps : m.unwrapping? = some d)
    (h : Yields (c.addMember env owner bindings scope parent m) p s q) :
    ∃ found, Yields (c.resolve (some (.ofMember owner m)) (m.type.substitute bindings) scope) p
      found q ∧ s = parent.addAll (d.inlines q.registry found) := by
  cases yields_addMember.mp h with
  | hidden invisible => cases visible.symm.trans invisible
  | omitted _ resolved => exact ⟨none, resolved, rfl⟩
  | @unwrapped d' found _ _ unwraps' resolved =>
    obtain rfl := Option.some.inj (unwraps.symm.trans unwraps')
    exact ⟨some found, resolved, Schema.inlined_eq_addAll _ _ _ _⟩
  | own _ whole => cases unwraps.symm.trans whole

/-- Among the other members an unwrapped one adds the properties that its type comes to. -/
theorem inlines_of_addMembers (hc : c.Respects Grows) {before after : List Member}
    (members : owner.members = before ++ m :: after)
    (visible : m.isVisible env owner scope.view = true) (unwraps : m.unwrapping? = some d)
    (h : Yields (c.addMembers env owner bindings scope parent) p s q) :
    ∃ p₁ found p₂ first last,
      Yields (c.resolve (some (.ofMember owner m)) (m.type.substitute bindings) scope) p₁ found p₂ ∧
      Grows p₂ q ∧ s = parent.addAll (first ++ d.inlines p₂.registry found ++ last) ∧
      ∀ property ∈ first ++ last, ∃ other ∈ before ++ after,
        other.isVisible env owner scope.view = true ∧ other.MaySupply owner property.name := by
  rw [Compiler.addMembers, members, List.foldlM_append] at h
  obtain ⟨_, p₁, earlier, h⟩ := yields_bind.mp h
  rw [List.foldlM_cons] at h
  obtain ⟨_, p₂, here, later⟩ := yields_bind.mp h
  have grows := (later_of_addMembers hc later).1
  obtain ⟨first, rfl, -, firsts⟩ := exists_added_of_addMembers earlier
  obtain ⟨found, resolved, rfl⟩ := inlines_of_addMember visible unwraps here
  obtain ⟨last, rfl, -, lasts⟩ := exists_added_of_addMembers later
  refine ⟨p₁, found, p₂, first, last, resolved, grows, ?_, fun property hproperty => ?_⟩
  · rw [Schema.addAll_append, Schema.addAll_append]
  · rcases List.mem_append.mp hproperty with before | after
    · obtain ⟨other, hother, supplies⟩ := firsts property before
      exact ⟨other, List.mem_append_left _ hother, supplies⟩
    · obtain ⟨other, hother, supplies⟩ := lasts property after
      exact ⟨other, List.mem_append_right _ hother, supplies⟩

end Compiler

/-! ### What is built -/

namespace Decl

/-- The schema directive of a declaration neither requires the name nor composes anything. -/
def IsSilent (d : Decl) (name : String) : Prop :=
  ∀ directive, d.directives.get? .schema = some directive →
    directive.texts "allOf" = [] ∧ name ∉ directive.texts "requiredProperties"

/-- What becomes of the object that the members of a declaration make: it is kept, and only the
schema directive of the declaration adds to it. -/
structure Finishes (d : Decl) (own s : Schema) : Prop where
  lists {property : String × Schema} : property ∈ own.properties → s.Lists property
  requires {name : String} : name ∈ own.required → s.Requires name
  lists_of {property : String × Schema} : d.IsSilent property.1 → s.Lists property →
    property ∈ own.properties
  requires_of {name : String} : d.IsSilent name → s.Requires name → name ∈ own.required

variable {d : Decl} {own s t : Schema}

theorem finishes_settled (references : ∀ part ∈ own.allOf, part.isRef = true) :
    d.Finishes own own.settled where
  lists := Schema.lists_settled
  requires := Schema.requires_settled
  lists_of _ listed := listed.of_settled.of_references references
  requires_of _ required := required.of_settled.of_references references

theorem Finishes.congr (h : d.Finishes own s) (same : t.makeup = s.makeup) : d.Finishes own t := by
  obtain ⟨properties, -, parts⟩ := Schema.makeup_eq_iff.mp same
  exact {
    lists := fun mem => (h.lists mem).congr properties parts
    requires := fun mem => (h.requires mem).congr same
    lists_of := fun silent listed =>
      h.lists_of silent (listed.congr properties.symm parts.symm)
    requires_of := fun silent required => h.requires_of silent (required.congr same.symm) }

theorem Finishes.amended {directive : Directive} (h : d.Finishes own s)
    (stated : d.directives.get? .schema = some directive) (amended : s.AmendedBy directive t) :
    d.Finishes own t where
  lists mem := amended.lists (h.lists mem)
  requires mem := amended.requires (h.requires mem)
  lists_of silent listed := h.lists_of silent (amended.lists_of (silent _ stated).1 listed)
  requires_of silent required := h.requires_of silent
    (amended.requires_of (silent _ stated).1 (silent _ stated).2 required)

end Decl

namespace Schema

theorem makeup_completed (s : Schema) (u : Universe) (t : TypeRef) :
    (s.completed u t).makeup = s.makeup := by
  unfold completed
  split <;> rfl

end Schema

namespace Compiler

variable {env : Environment} {depth : Nat} {d : Decl} {t : TypeRef} {scope : Scope} {p q : Pass}
  {s parent : Schema}

theorem required_of_recordStart {bindings : Bindings}
    (h : Yields ((ofDepth env depth).recordStart env d bindings scope) p s q) :
    s.required = [] :=
  keeps_recordStart (P := fun s => s.required = []) (fun before _ => before) h rfl rfl

/-- What is built is made of what the members add, to begin with nothing but references. -/
theorem exists_of_build (kind : d.kind ≠ .enum)
    (h : Yields ((ofDepth env depth).build env d t scope) p s q) :
    ∃ start p₁ own p₂, start.properties = [] ∧ start.required = [] ∧
      Yields ((ofDepth env depth).addMembers env d (env.types.bindings t) scope start) p₁ own p₂ ∧
      Grows p₂ q ∧ d.Finishes own s := by
  obtain ⟨built, p₂, declares, overlays⟩ := yields_bind.mp h
  obtain ⟨enum, -⟩ | ⟨-, start, p₁, own, starts, members, rfl⟩ := declaredSchema_cases declares
  · exact absurd enum kind
  obtain ⟨noProperties, references⟩ := references_of_recordStart starts
  have parts : own.allOf = start.allOf :=
    (origin_of_addMembers (List.Subset.refl _) members).1
  have settled : d.Finishes own own.settled := Decl.finishes_settled (parts ▸ references)
  refine ⟨start, p₁, own, p₂, noProperties, required_of_recordStart starts, members, ?_⟩
  rcases overlayOwn_cases overlays with
    ⟨-, rfl, rfl⟩ | ⟨directive, laid, stated, overlaid, rfl, grows⟩
  · exact ⟨.refl _, settled⟩
  · exact ⟨grows, (settled.amended stated (amendedBy_overlay overlaid)).congr
      (Schema.makeup_completed _ _ _)⟩

end Compiler

/-! ### Runs -/

namespace Pass

/-- A registered schema is the definition of a declared type: it has the name that was assigned to
the type, and was built while what was registered then was a beginning of what is registered. -/
structure IsDefinition (env : Environment) (z : Pass) (entry : String × Schema) (d : Decl)
    (t : TypeRef) (scope : Scope) : Prop where
  declared : env.types.declOf? t = some d
  named : ∃ element key, (d.nameRequest element t scope).candidate env.config env.types = some key ∧
    z.names.assigned.get? key = some entry.1
  built : ∃ depth p s q, Yields ((Compiler.ofDepth env depth).build env d t scope) p s q ∧
    q.registry.schemas <+: z.registry.schemas ∧
      entry.2 = { d.documented s with name := some entry.1 }

theorem BuiltFor.isDefinition {env : Environment} {z p q : Pass} {entry : String × Schema}
    {d : Decl} {t : TypeRef} {scope : Scope} (h : BuiltFor env z entry d t scope p q) :
    IsDefinition env z entry d t scope := by
  obtain ⟨depth, s, built, same⟩ := h.built
  exact ⟨h.declared, h.named, depth, p, s, q, built, h.schemas, same⟩

/-- All that is registered defines declared types, whether requests are answered or stop. -/
theorem exists_isDefinition (env : Environment) (rs : List Request) {entry : String × Schema}
    (registered : entry ∈ (after env rs).registry.schemas) :
    ∃ d t scope, IsDefinition env (after env rs) entry d t scope := by
  obtain ⟨d, t, scope, _, _, built⟩ := exists_builtFor env rs registered
  exact ⟨d, t, scope, built.isDefinition⟩

end Pass

/-! ### What is kept of a type -/

theorem mem_ownProperties_iff {properties : List (String × Schema)} {required : List String}
    {p : Property} : p ∈ Schema.ownProperties properties required ↔
      (p.name, p.schema) ∈ properties ∧ p.required = required.contains p.name := by
  constructor
  · intro h
    obtain ⟨pair, hpair, rfl⟩ := List.mem_map.mp h
    exact ⟨hpair, rfl⟩
  · rintro ⟨hpair, flagged⟩
    exact List.mem_map.mpr ⟨_, hpair, by rw [← flagged]⟩

namespace Directive

variable {d : Directive} {r : Registry} {found : Resolved} {name : String}

theorem exists_mem_inlines_iff {P : Property → Prop} : (∃ p ∈ d.inlines r (some found),
    p.name = d.affixed name ∧ P p) ↔ ∃ p ∈ found.schema.allProperties r, p.name = name ∧
      P { p with name := d.affixed p.name } := by
  constructor
  · rintro ⟨p, hp, same, holds⟩
    obtain ⟨inner, hinner, rfl⟩ := List.mem_map.mp hp
    exact ⟨inner, hinner, affixed_inj.mp same, holds⟩
  · rintro ⟨inner, hinner, rfl, holds⟩
    exact ⟨_, List.mem_map_of_mem hinner, rfl, holds⟩

/-- The names that take the place of a member are those of what its type collects. -/
theorem inlines_has_iff : (∃ p ∈ d.inlines r (some found), p.name = d.affixed name) ↔
    ∃ x, r.Collects found.schema x ∧ name ∈ x.propertyNames := by
  refine (by simp : _ ↔ ∃ p ∈ d.inlines r (some found), p.name = d.affixed name ∧ True).trans ?_
  rw [exists_mem_inlines_iff]
  simp only [and_true]
  constructor
  · rintro ⟨p, hp, rfl⟩
    obtain ⟨x, collected, own⟩ := Schema.mem_allProperties_iff.mp hp
    exact ⟨x, collected, List.mem_map.mpr ⟨_, (mem_ownProperties_iff.mp own).1, rfl⟩⟩
  · rintro ⟨x, collected, named⟩
    obtain ⟨pair, hpair, rfl⟩ := List.mem_map.mp named
    exact ⟨⟨pair.1, pair.2, x.required.contains pair.1⟩,
      Schema.mem_allProperties_iff.mpr ⟨x, collected, mem_ownProperties_iff.mpr ⟨hpair, rfl⟩⟩, rfl⟩

/-- Those are required that the node requires which has them. -/
theorem inlines_requires_iff :
    (∃ p ∈ d.inlines r (some found), p.name = d.affixed name ∧ p.required = true) ↔
      ∃ x, r.Collects found.schema x ∧ name ∈ x.propertyNames ∧ name ∈ x.required := by
  rw [exists_mem_inlines_iff]
  constructor
  · rintro ⟨p, hp, rfl, flagged⟩
    obtain ⟨x, collected, own⟩ := Schema.mem_allProperties_iff.mp hp
    obtain ⟨hpair, same⟩ := mem_ownProperties_iff.mp own
    exact ⟨x, collected, List.mem_map.mpr ⟨_, hpair, rfl⟩,
      List.contains_iff_mem.mp (same.symm.trans flagged)⟩
  · rintro ⟨x, collected, named, required⟩
    obtain ⟨pair, hpair, rfl⟩ := List.mem_map.mp named
    exact ⟨⟨pair.1, pair.2, x.required.contains pair.1⟩,
      Schema.mem_allProperties_iff.mpr ⟨x, collected, mem_ownProperties_iff.mpr ⟨hpair, rfl⟩⟩, rfl,
      List.contains_iff_mem.mpr required⟩

end Directive

namespace Registry

/-- What unwrapping is to keep of a property: the property itself, required if and only if anything
that the definition reaches requires its name. -/
structure Keeps (z : Registry) (d : Directive) (w whole : Schema) (name : String) : Prop where
  has : whole.Has (d.affixed name)
  requires : whole.Requires (d.affixed name) ↔ ∃ x, z.Reaches w x ∧ name ∈ x.required

/-- An earlier registry shows enough of a reference: something that it collects has the property,
and something that has it requires it if anything requires it that the definition reaches. -/
structure Catches (r z : Registry) (s w : Schema) (name : String) : Prop where
  has : ∃ x, r.Collects s x ∧ name ∈ x.propertyNames
  requires : (∃ x, r.Collects s x ∧ name ∈ x.propertyNames ∧ name ∈ x.required) ↔
    ∃ x, z.Reaches w x ∧ name ∈ x.required

/-- If all that is reached was finished, what has a property was collected. -/
theorem Finished.catches {r z : Registry} {s w x : Schema} {name : String}
    (h : Finished r z s w) (earlier : r.schemas <+: z.schemas) (reach : z.Reaches w x)
    (named : name ∈ x.propertyNames)
    (beside : (∃ x, z.Reaches w x ∧ name ∈ x.required) →
      ∃ x, z.Reaches w x ∧ name ∈ x.propertyNames ∧ name ∈ x.required) :
    r.Catches z s w name := by
  have collects {x : Schema} (reach : z.Reaches w x) (named : name ∈ x.propertyNames) :
      r.Collects s x := by
    refine h.collects reach (Bool.eq_false_iff.mpr fun ref => ?_)
    rw [Schema.propertyNames, (h.pointer reach ref).1] at named
    cases named
  refine ⟨⟨x, collects reach named, named⟩, ?_, fun required => ?_⟩
  · rintro ⟨x, collected, -, required⟩
    exact ⟨x, collected.reaches earlier (resolve?_of_earlier earlier h.defined), required⟩
  · obtain ⟨x, reach, named, required⟩ := beside required
    exact ⟨x, collects reach named, named, required⟩

end Registry

/-- No other member and no directive of the declaration may supply the name. -/
structure Decl.LeavesTo (env : Environment) (d : Decl) (view : Option String)
    (others : List Member) (name : String) : Prop where
  members : ∀ other ∈ others, other.isVisible env d view = true → ¬ other.MaySupply d name
  silent : d.IsSilent name

/-- What a definition makes of an unwrapped member whose type came to a schema while one registry
was on the way to another one.  Nothing is lost of what was collected.  Where only the member may
supply a property, its schema comes from there too, and what is to be kept of it is kept if and
only if it was caught.  So it is if all was finished and names are required where they stand. -/
structure Unwraps (env : Environment) (owner : Decl) (view : Option String) (others : List Member)
    (d : Directive) (r z : Registry) (s whole : Schema) : Prop where
  has {x : Schema} {name : String} : r.Collects s x → name ∈ x.propertyNames →
    whole.Has (d.affixed name)
  requires {x : Schema} {name : String} : r.Collects s x → name ∈ x.propertyNames →
    name ∈ x.required → whole.Requires (d.affixed name)
  value {value : Schema} {name : String} : owner.LeavesTo env view others (d.affixed name) →
    whole.Lists (d.affixed name, value) → ∃ x, r.Collects s x ∧ (name, value) ∈ x.properties
  keeps_iff {w : Schema} {name : String} : owner.LeavesTo env view others (d.affixed name) →
    (z.Keeps d w whole name ↔ r.Catches z s w name)
  keeps {w x : Schema} {name : String} : owner.LeavesTo env view others (d.affixed name) →
    r.Finished z s w → z.Reaches w x → name ∈ x.propertyNames →
      ((∃ x, z.Reaches w x ∧ name ∈ x.required) →
        ∃ x, z.Reaches w x ∧ name ∈ x.propertyNames ∧ name ∈ x.required) →
          z.Keeps d w whole name

section

variable {env : Environment} {owner : Decl} {view : Option String} {others : List Member}
  {d : Directive} {r z : Registry} {found : Resolved} {start own whole : Schema}
  {first last : List Property} {name : String}

/-- What is added by others leaves the names alone that only the member may supply. -/
theorem Decl.LeavesTo.not_mem (leaves : owner.LeavesTo env view others name)
    (supplied : ∀ property ∈ first ++ last, ∃ other ∈ others,
      other.isVisible env owner view = true ∧ other.MaySupply owner property.name)
    {p : Property} (hp : p ∈ first ++ d.inlines r (some found) ++ last) (named : p.name = name) :
    p ∈ d.inlines r (some found) := by
  have elsewhere (h : p ∈ first ++ last) : False := by
    obtain ⟨other, hother, visible, supplies⟩ := supplied p h
    exact leaves.members other hother visible (named ▸ supplies)
  rcases List.mem_append.mp hp with hp | hp
  · exact (List.mem_append.mp hp).resolve_left fun h => elsewhere (List.mem_append_left _ h)
  · exact (elsewhere (List.mem_append_right _ hp)).elim

section

variable (made : own = start.addAll (first ++ d.inlines r (some found) ++ last))
  (finishes : owner.Finishes own whole)

include made finishes

theorem has_affixed (h : ∃ x, r.Collects found.schema x ∧ name ∈ x.propertyNames) :
    whole.Has (d.affixed name) := by
  obtain ⟨p, hp, same⟩ := Directive.inlines_has_iff.mpr h
  have listed : d.affixed name ∈ own.propertyNames := by
    rw [made, Schema.mem_propertyNames_addAll]
    exact .inr ⟨p, List.mem_append_left _ (List.mem_append_right _ hp), same⟩
  obtain ⟨pair, hpair, key⟩ := List.mem_map.mp listed
  exact ⟨pair.2, key ▸ finishes.lists hpair⟩

theorem requires_affixed
    (h : ∃ x, r.Collects found.schema x ∧ name ∈ x.propertyNames ∧ name ∈ x.required) :
    whole.Requires (d.affixed name) := by
  obtain ⟨p, hp, same, flagged⟩ := Directive.inlines_requires_iff.mpr h
  refine finishes.requires ?_
  rw [made, Schema.mem_required_addAll]
  exact .inr ⟨p, List.mem_append_left _ (List.mem_append_right _ hp), same, flagged⟩

variable (supplied : ∀ property ∈ first ++ last, ∃ other ∈ others,
    other.isVisible env owner view = true ∧ other.MaySupply owner property.name)
  (leaves : owner.LeavesTo env view others (d.affixed name))

include supplied leaves

theorem collects_of_lists_affixed (properties : start.properties = []) {value : Schema}
    (listed : whole.Lists (d.affixed name, value)) :
    ∃ x, r.Collects found.schema x ∧ (name, value) ∈ x.properties := by
  have mem := finishes.lists_of leaves.silent listed
  rw [made] at mem
  rcases Schema.mem_properties_addAll mem with before | ⟨p, hp, same⟩
  · rw [properties] at before
    cases before
  · obtain ⟨named, rfl⟩ := Prod.mk.inj same
    obtain ⟨inner, hinner, rfl⟩ := List.mem_map.mp (leaves.not_mem supplied hp named.symm)
    obtain ⟨x, collected, own⟩ := Schema.mem_allProperties_iff.mp hinner
    obtain rfl := Directive.affixed_inj.mp named
    exact ⟨x, collected, (mem_ownProperties_iff.mp own).1⟩

theorem has_affixed_iff (properties : start.properties = []) :
    whole.Has (d.affixed name) ↔
      ∃ x, r.Collects found.schema x ∧ name ∈ x.propertyNames := by
  refine ⟨fun ⟨_, listed⟩ => ?_, has_affixed made finishes⟩
  obtain ⟨x, collected, hpair⟩ :=
    collects_of_lists_affixed made finishes supplied leaves properties listed
  exact ⟨x, collected, List.mem_map.mpr ⟨_, hpair, rfl⟩⟩

theorem requires_affixed_iff (required : start.required = []) :
    whole.Requires (d.affixed name) ↔
      ∃ x, r.Collects found.schema x ∧ name ∈ x.propertyNames ∧ name ∈ x.required := by
  refine ⟨fun h => (Directive.inlines_requires_iff (d := d)).mp ?_, requires_affixed made finishes⟩
  have own := finishes.requires_of leaves.silent h
  rw [made, Schema.mem_required_addAll, required] at own
  obtain ⟨p, hp, named, flagged⟩ := own.resolve_left List.not_mem_nil
  exact ⟨p, leaves.not_mem supplied hp named, named, flagged⟩

end

/-- A definition unwraps a member if it got everything from its members, this one's properties
among them, and was finished from there. -/
theorem unwraps_of_finishes (properties : start.properties = []) (required : start.required = [])
    (made : own = start.addAll (first ++ d.inlines r (some found) ++ last))
    (supplied : ∀ property ∈ first ++ last, ∃ other ∈ others,
      other.isVisible env owner view = true ∧ other.MaySupply owner property.name)
    (finishes : owner.Finishes own whole) (earlier : r.schemas <+: z.schemas) :
    Unwraps env owner view others d r z found.schema whole := by
  have keeps_iff {w : Schema} {name : String}
      (leaves : owner.LeavesTo env view others (d.affixed name)) :
      z.Keeps d w whole name ↔ r.Catches z found.schema w name := by
    have has_iff := has_affixed_iff made finishes supplied leaves properties
    have requires_iff := requires_affixed_iff made finishes supplied leaves required
    constructor
    · intro kept
      exact ⟨has_iff.mp kept.has, requires_iff.symm.trans kept.requires⟩
    · intro caught
      exact ⟨has_iff.mpr caught.has, requires_iff.trans caught.requires⟩
  exact {
    has := fun collected named => has_affixed made finishes ⟨_, collected, named⟩
    requires := fun collected named required =>
      requires_affixed made finishes ⟨_, collected, named, required⟩
    value := fun leaves => collects_of_lists_affixed made finishes supplied leaves properties
    keeps_iff := keeps_iff
    keeps := fun leaves finished reach named beside =>
      (keeps_iff leaves).mpr (finished.catches earlier reach named beside) }

end

/-- Each visible member of the declaration that is unwrapped was resolved while a schema was made,
and what it came to, if anything, is unwrapped in the schema. -/
def Decl.UnwrapsMembers (env : Environment) (z : Pass) (d : Decl) (t : TypeRef) (scope : Scope)
    (whole : Schema) : Prop :=
  ∀ earlier m later directive, d.members = earlier ++ m :: later →
    m.isVisible env d scope.view = true → m.unwrapping? = some directive →
      ∃ depth p found q,
        Yields ((Compiler.ofDepth env depth).resolve (some (.ofMember d m))
          (m.type.substitute (env.types.bindings t)) scope) p found q ∧
        q.registry.schemas <+: z.registry.schemas ∧
        ∀ resolved, found = some resolved →
          Unwraps env d scope.view (earlier ++ later) directive q.registry z.registry
            resolved.schema whole

/-- Every registered schema is the definition of a declared type, and unwraps what the members of
the declaration came to that are to be unwrapped. -/
theorem unwraps_of_registered (env : Environment) (rs : List Request) {entry : String × Schema}
    (registered : entry ∈ (after env rs).registry.schemas) :
    ∃ d t scope, IsDefinition env (after env rs) entry d t scope ∧
      (d.kind ≠ .enum → d.UnwrapsMembers env (after env rs) t scope entry.2) := by
  obtain ⟨d, t, scope, defines⟩ := exists_isDefinition env rs registered
  refine ⟨d, t, scope, defines, fun kind earlier m later directive members visible unwraps => ?_⟩
  obtain ⟨depth, p, s, q, built, kept, same⟩ := defines.built
  obtain ⟨start, p₁, own, p₂, properties, required, added, grows, finishes⟩ :=
    Compiler.exists_of_build kind built
  obtain ⟨p', found, q', first, last, resolves, grows', made, supplied⟩ :=
    Compiler.inlines_of_addMembers ((frame_grows env).ofDepth depth) members visible unwraps added
  have before := (grows'.trans grows).schemas.trans kept
  refine ⟨depth, p', found, q', resolves, before, ?_⟩
  rintro resolved rfl
  have whole : d.Finishes own entry.2 := by
    rw [same]
    exact finishes.congr rfl
  exact unwraps_of_finishes properties required made supplied whole before

/-- The directive by which an item is unwrapped. -/
def unwrapItem : Directive := [("prefix", .str "item_")]

/-- An order in which an item is unwrapped that requires its own property by a directive. -/
def itemOrders : Environment where
  types := (Universe.initial .standard).insertAll
    [{ name := "com.acme.Base", members := [{ name := "id", type := .plain "long" }] },
      { name := "com.acme.Item", superType := some (.plain "com.acme.Base"),
        members := [{ name := "sku", type := .plain "string" }],
        directives := [(.schema, [("requiredProperties", .arr [.str "sku"])])] },
      { name := "com.acme.Order", members :=
        [{ name := "item", type := .plain "com.acme.Item",
           directives := [(.unwrapped, unwrapItem)] }] }]
  config := {}

def orderRequest : Request := { type := .plain "com.acme.Order" }

/-- The order has what the item and its ancestor have. -/
theorem unwraps_of_registered_order :
    ∃ entry ∈ (after itemOrders [orderRequest]).registry.schemas,
      entry.2.propertyNames = ["item_id", "item_sku"] ∧
      ∃ d t scope, IsDefinition itemOrders (after itemOrders [orderRequest]) entry d t scope ∧
        (d.kind ≠ .enum →
          d.UnwrapsMembers itemOrders (after itemOrders [orderRequest]) t scope entry.2) := by
  have unwrapped : ((after itemOrders [orderRequest]).registry.schemas.any fun entry =>
      entry.2.propertyNames == ["item_id", "item_sku"]) = true := by
    decide +kernel
  obtain ⟨entry, hentry, names⟩ := List.any_eq_true.mp unwrapped
  exact ⟨entry, hentry, beq_iff_eq.mp names, unwraps_of_registered _ _ hentry⟩

/-- All properties that a definition reaches are kept in another one, under the names that a
directive gives them. -/
def Registry.KeepsAll (z : Registry) (d : Directive) (item whole : String) : Prop :=
  ∀ w s, z.get? item = some w → z.get? whole = some s →
    ∀ x name, z.Reaches w x → name ∈ x.propertyNames → z.Keeps d w s name

/-- The item requires its property, and the order does not. -/
theorem not_keepsAll_item :
    ¬ (after itemOrders [orderRequest]).registry.KeepsAll unwrapItem "Item" "Order" := by
  intro keepsAll
  have composed : ((after itemOrders [orderRequest]).registry.get? "Item").any (fun w =>
      w.required.contains "sku" && w.allOf.any fun part => part.propertyNames.contains "sku") =
        true := by
    decide +kernel
  have optional : ((after itemOrders [orderRequest]).registry.get? "Order").any (fun s =>
      s.required.isEmpty && s.allOf.isEmpty) = true := by
    decide +kernel
  obtain ⟨w, item, holds⟩ := (Option.any_eq_true _ _).mp composed
  obtain ⟨s, order, empty⟩ := (Option.any_eq_true _ _).mp optional
  obtain ⟨required, part⟩ := (Bool.and_eq_true_iff).mp holds
  obtain ⟨x, hx, named⟩ := List.any_eq_true.mp part
  obtain ⟨none, alone⟩ := (Bool.and_eq_true_iff).mp empty
  have kept := keepsAll w s item order x "sku" (.single (.inl hx)) (List.contains_iff_mem.mp named)
  have flagged := kept.requires.mpr ⟨w, .refl, List.contains_iff_mem.mp required⟩
  have listed := flagged.of_references fun part hpart => by
    rw [List.isEmpty_iff.mp alone] at hpart
    cases hpart
  rw [List.isEmpty_iff.mp none] at listed
  cases listed

end Schemata
