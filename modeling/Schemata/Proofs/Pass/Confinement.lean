import Schemata.Proofs.Pass.Omission
import Schemata.Proofs.Pass.Parts
import Schemata.Proofs.Pass.Reach

/-!
# Views

A request may ask for a view, which hides the members that do not belong to it.  The view is
handed on from an occurrence to its parts, and from a definition to its ancestors and to the
types of its members.  A type that is named inside a directive is resolved without a view, and so
is all that it leads to: what its definitions show is confined to no view.
-/
namespace Schemata

open Pass

/-- No directive of a declaration, a member or the request names a type. -/
structure Unnamed (env : Environment) (r : Request) : Prop where
  decls {name : String} {d : Decl} : env.types.get? name = some d → d.namedTypes = []
  element {e : Element} : r.element = some e → e.directives.typeNames = []

/-- Then all that is met is met in the scope of the request. -/
theorem Unnamed.eq_false {env : Environment} {r : Request} (h : Unnamed env r) {named : Bool}
    {call : Call} (met : Met env r named call) : named = false := by
  induction met with
  | asked => rfl
  | stated element hcall =>
    rw [h.element element] at hcall
    cases hcall
  | inside _ _ ih => exact ih
  | ancestor _ _ _ ih => exact ih
  | member _ _ _ ih => exact ih
  | named _ declared _ stated =>
    obtain ⟨name, -, hget⟩ := Option.bind_eq_some_iff.mp declared
    rw [h.decls hget] at stated
    cases stated

theorem Unnamed.of_all {env : Environment} {t : TypeRef} {scope : Scope}
    (h : (env.types.decls.all fun entry => entry.2.namedTypes.isEmpty) = true) :
    Unnamed env { type := t, scope := scope } where
  decls hget := List.isEmpty_iff.mp (List.all_eq_true.mp h _ (Assoc.mem_of_get? hget))
  element same := by cases same

/-- The schema of a member: that of its type, resolved for some view, to which the directives of
the member are bound. -/
def Member.HasSchema (env : Environment) (d : Decl) (m : Member) (view : Option String)
    (s : Schema) : Prop :=
  ∃ depth t scope p found p' q, scope.view = view ∧
    Yields ((Compiler.ofDepth env depth).resolve (some (.ofMember d m)) t scope) p (some found) p' ∧
    Yields ((Compiler.ofDepth env depth).bind env (.ofMember d m) t found.schema
      (m.includesNull found.nullable && !m.excludesNull)) p' s q

/-- Where a property of a definition comes from: it is that of a visible member, or takes the
place of a visible member that is unwrapped, or is for a constant, by which a map is written out
among the parts that the directive of the declaration names. -/
inductive Origin (env : Environment) (z : Pass) (d : Decl) (view : Option String) :
    String × Schema → Prop where
  | own {m : Member} {s : Schema} (hm : m ∈ d.members) (visible : m.isVisible env d view = true)
      (whole : m.unwrapping? = none) (schema : m.HasSchema env d view s) :
      Origin env z d view ((m.propertyName d).1, s)
  | inlined {m : Member} {directive : Directive} {name : String} {s : Schema} (hm : m ∈ d.members)
      (visible : m.isVisible env d view = true) (unwrapped : m.unwrapping? = some directive)
      (listed : z.registry.Lists (name, s) ∨ env.types.IsConstant name) :
      Origin env z d view
        ((directive.text? "prefix").getD "" ++ name ++ (directive.text? "suffix").getD "", s)
  | constant {directive : Directive} {property : String × Schema}
      (stated : d.directives.get? .schema = some directive)
      (composed : directive.texts "allOf" ≠ []) (constant : env.types.IsConstant property.1) :
      Origin env z d view property

theorem Origin.later {env : Environment} {q z : Pass} {d : Decl} {view : Option String}
    {property : String × Schema} (h : Origin env q d view property)
    (kept : q.registry.schemas ⊆ z.registry.schemas) : Origin env z d view property := by
  cases h with
  | own hm visible whole schema => exact .own hm visible whole schema
  | inlined hm visible unwrapped listed =>
    refine .inlined hm visible unwrapped (listed.imp_left fun ⟨entry, hentry, h⟩ => ?_)
    exact ⟨entry, kept hentry, h⟩
  | constant stated composed constant => exact .constant stated composed constant

/-! ### What is built -/

namespace Compiler

variable {env : Environment} {depth : Nat} {owner : Decl} {bindings : Bindings} {scope : Scope}
  {t : TypeRef} {p q : Pass} {parent s : Schema} {m : Member} {property : String × Schema}

theorem origin_of_addMember (hm : m ∈ owner.members)
    (h : Yields ((ofDepth env depth).addMember env owner bindings scope parent m) p s q) :
    s.allOf = parent.allOf ∧ ∀ property ∈ s.properties,
      property ∈ parent.properties ∨ Origin env q owner scope.view property := by
  cases yields_addMember.mp h with
  | hidden => exact ⟨rfl, fun property => .inl⟩
  | omitted => exact ⟨rfl, fun property => .inl⟩
  | unwrapped visible unwraps resolved =>
    refine ⟨Schema.allOf_inlined _ _ _ _, fun property hproperty => ?_⟩
    refine (Schema.mem_properties_inlined hproperty).imp_right ?_
    rintro ⟨p, hp, rfl⟩
    refine .inlined hm visible unwraps ?_
    refine (Schema.lists_of_mem_allProperties hp).symm.imp_right fun ⟨inline, listed⟩ => ?_
    exact ((writesOut_ofDepth env depth).resolve resolved).isConstant inline listed
  | own visible whole resolved bound =>
    refine ⟨rfl, fun property hproperty => ?_⟩
    refine (Assoc.mem_of_mem_insert hproperty).imp_right ?_
    rintro rfl
    exact .own hm visible whole ⟨depth, _, scope, p, _, _, _, rfl, resolved, bound⟩

/-- The registry only grows while the other members are added, so that the origins found so far
remain. -/
theorem origin_of_addMembers {ms : List Member} (sub : ms ⊆ owner.members)
    (h : Yields (ms.foldlM ((ofDepth env depth).addMember env owner bindings scope) parent) p s q) :
    s.allOf = parent.allOf ∧ ∀ property ∈ s.properties,
      property ∈ parent.properties ∨ Origin env q owner scope.view property := by
  refine keeps_addMembers ((frame_grows env).ofDepth depth)
    (P := fun s => s.allOf = parent.allOf ∧ ∀ property ∈ s.properties,
      property ∈ parent.properties ∨ Origin env q owner scope.view property)
    (fun hm before added grows => ?_) h ⟨rfl, fun property => .inl⟩
  obtain ⟨parts, origins⟩ := before
  obtain ⟨parts', origins'⟩ := origin_of_addMember (sub hm) added
  refine ⟨parts'.trans parts, fun property hproperty => ?_⟩
  rcases origins' property hproperty with before | origin
  · exact origins property before
  · exact .inr (origin.later grows.schemas.subset)

/-- Ancestors are parts that are references. -/
theorem references_of_recordStart
    (h : Yields ((ofDepth env depth).recordStart env owner bindings scope) p s q) :
    s.properties = [] ∧ ∀ part ∈ s.allOf, part.isRef = true := by
  refine keeps_recordStart (P := fun s => s.properties = [] ∧ ∀ part ∈ s.allOf, part.isRef = true)
    (fun {s reference _ _ _} before defined => ⟨before.1, fun part hpart => ?_⟩) h
    ⟨rfl, fun part hpart => by cases hpart⟩ ⟨rfl, fun part hpart => by cases hpart⟩
  rcases Schema.mem_pushNew hpart with old | rfl
  · exact before.2 part old
  · exact (writesOut_ofDepth env depth).define defined

theorem origin_of_declaredSchema
    (h : Yields ((ofDepth env depth).declaredSchema env owner t scope) p s q)
    (listed : s.Lists property) : Origin env q owner scope.view property := by
  rcases declaredSchema_cases h with ⟨-, rfl⟩ | ⟨-, start, _, s', started, added, rfl⟩
  · have own := listed.of_references fun part hpart => by cases hpart
    cases own
  · obtain ⟨none, references⟩ := references_of_recordStart started
    obtain ⟨parts, origins⟩ := origin_of_addMembers (List.Subset.refl _) added
    have own : property ∈ s'.properties := listed.of_settled.of_references (parts ▸ references)
    refine (origins property own).resolve_left fun before => ?_
    rw [none] at before
    cases before

/-- Each property of a definition has an origin in its declaration, under the view in which it
is built. -/
theorem origin_of_build (h : Yields ((ofDepth env depth).build env owner t scope) p s q)
    (listed : s.Lists property) : Origin env q owner scope.view property := by
  obtain ⟨s', p', declared, h⟩ := yields_bind.mp h
  rcases overlayOwn_cases h with ⟨-, rfl, rfl⟩ | ⟨directive, laid, stated, overlaid, rfl, grows⟩
  · exact origin_of_declaredSchema declared listed
  · rcases (writesOut_ofDepth env depth).lists_of_overlay overlaid listed.of_completed with
      before | added
    · exact (origin_of_declaredSchema declared before).later grows.schemas.subset
    · exact .constant stated added.1 added.2

end Compiler

namespace Pass

/-! ### Passes -/

/-- A registered schema is that of a definition which the request leads to, perhaps by way of a
directive that names a type, and its properties come from members that belong to the view of the
request, or to any view if a directive has named a type. -/
def Confined (env : Environment) (r : Request) (named : Bool) (z : Pass)
    (entry : String × Schema) : Prop :=
  ∃ element t d key, Met env r named (.define element t (r.scopeOf named)) ∧
    env.types.declOf? t = some d ∧
    (d.nameRequest element t (r.scopeOf named)).candidate env.config env.types = some key ∧
    z.names.assigned.get? key = some entry.1 ∧
    ∀ property, entry.2.Lists property → Origin env z d (r.scopeOf named).view property

variable {env : Environment} {r : Request}

theorem Confined.later {named : Bool} {q z : Pass} {entry : String × Schema}
    (h : Confined env r named q entry)
    (kept : q.registry.schemas ⊆ z.registry.schemas)
    (assigned : ∀ {key name}, q.names.assigned.get? key = some name →
      z.names.assigned.get? key = some name) : Confined env r named z entry := by
  obtain ⟨element, t, d, key, met, declared, hkey, given, origins⟩ := h
  exact ⟨element, t, d, key, met, declared, hkey, assigned given,
    fun property listed => (origins property listed).later kept⟩

/-- What is registered from one state to the other is confined. -/
def Confines (env : Environment) (r : Request) (p : Pass) (_ : Option Stop) (q : Pass) : Prop :=
  Grows p q ∧ ∀ entry ∈ q.registry.schemas,
    entry ∈ p.registry.schemas ∨ ∃ named, Confined env r named q entry

theorem course_confines (env : Environment) (r : Request) : Course (Confines env r) where
  refl p := ⟨.refl p, fun _ => .inl⟩
  report p ds := ⟨.report p ds, fun _ => .inl⟩
  trans first second := by
    obtain ⟨grows, before⟩ := first
    obtain ⟨grows', after⟩ := second
    refine ⟨grows.trans grows', fun entry hentry => ?_⟩
    rcases after entry hentry with old | new
    · refine (before entry old).imp_right fun ⟨named, h⟩ => ⟨named, ?_⟩
      exact h.later grows'.schemas.subset grows'.assigned
    · exact .inr new

theorem Confines.takes_build {depth : Nat} {named : Bool} {element : Option Element} {t : TypeRef}
    {scope : Scope} {d : Decl}
    (hc : ∀ call, (∃ named, Met env r named call) →
      call.Takes (Confines env r) (.ofDepth env depth))
    (met : Met env r named (.define element t scope)) (declared : env.types.declOf? t = some d) :
    Takes (Confines env r) ((Compiler.ofDepth env depth).build env d t scope) :=
  (course_confines env r).build fun call hcall => hc call (met.beyond declared hcall)

theorem confines_ends {depth : Nat} {named : Bool} {element : Option Element} {t : TypeRef}
    {scope : Scope} {p q : Pass} {o : Option Stop}
    (hc : ∀ call, (∃ named, Met env r named call) →
      call.Takes (Confines env r) (.ofDepth env depth))
    (met : Met env r named (.define element t scope))
    (ends : (Compiler.ofDepth env depth).Ends env element t scope p o q) :
    Confines env r p o q := by
  have respects := (frame_grows env).ofDepth depth
  refine ⟨(frame_grows env).ends respects ends, fun entry hentry => ?_⟩
  cases ends with
  | yields answer =>
    cases answer with
    | undeclared => exact .inl hentry
    | known => exact .inl hentry
    | @built d name names s q' declared given new built =>
      obtain ⟨grows, before⟩ := (Confines.takes_build hc met declared).yields built
      obtain rfl : scope = r.scopeOf named := met.scope_eq
      -- Finishing the name takes nothing away: what the schema was built from is still registered.
      have kept : q'.registry.schemas ⊆ (q'.withSchema name (d.documented s)).registry.schemas :=
        (schemas_prefix_register (q'.registry.finish name) name _).subset
      rcases mem_schemas_withSchema hentry with old | rfl
      · rw [schemas_startName] at before
        exact (before entry old).imp_right fun ⟨named, h⟩ => ⟨named, h.later kept id⟩
      · obtain ⟨key, hkey, assigned⟩ := NameTable.given_of_compute given
        refine .inr ⟨named, element, t, d, key, met, declared, hkey, grows.assigned assigned,
          fun property listed => ?_⟩
        have listed : s.Lists property := listed.congr rfl rfl
        exact (Compiler.origin_of_build built listed).later kept
  | nameless => exact .inl hentry
  | refused => exact .inl hentry
  | @stopped d name names e q' declared given new stopped =>
    obtain ⟨grows, before⟩ := (Confines.takes_build hc met declared).stops stopped
    rw [schemas_startName] at before
    exact (before entry hentry).imp_right fun ⟨named, h⟩ => ⟨named, h.later (fun _ => id) id⟩

/-- Each schema that a request registers, whether it is answered or stops, is confined to its
view, but for what a directive leads to by naming a type: that is confined to no view. -/
theorem confined_resolve (env : Environment) (r : Request) :
    (∀ entry ∈ (({} : Pass).resolve env r).2.registry.schemas,
      ∃ named, Confined env r named (({} : Pass).resolve env r).2 entry) ∧
    (Unnamed env r → ∀ entry ∈ (({} : Pass).resolve env r).2.registry.schemas,
      Confined env r false (({} : Pass).resolve env r).2 entry) := by
  have takes (call : Call) (met : ∃ named, Met env r named call) :
      call.Takes (Confines env r) (.serving env r.element r.type) :=
    (course_confines env r).ofDepth (fun call => ∃ named, Met env r named call)
      (course_confines env r).refl (fun ⟨named, h⟩ _ hcall => ⟨named, h.inside hcall⟩)
      (fun hc ⟨named, h⟩ => confines_ends hc h) _ met
  obtain ⟨-, confined⟩ :=
    (course_confines env r).request (fun call hcall => takes call (Met.ofRequest hcall)) {}
  have all : ∀ entry ∈ (({} : Pass).resolve env r).2.registry.schemas,
      ∃ named, Confined env r named (({} : Pass).resolve env r).2 entry :=
    fun entry hentry => (confined entry hentry).resolve_left fun none => by cases none
  refine ⟨all, fun unnamed entry hentry => ?_⟩
  obtain ⟨named, element, t, d, key, met, rest⟩ := all entry hentry
  obtain rfl := unnamed.eq_false met
  exact ⟨element, t, d, key, met, rest⟩

/-- A record with a code that only the inner view shows, next to another declaration. -/
def secretBeside (d : Decl) : Environment where
  types := (Universe.initial .standard).insertAll
    [{ name := "com.acme.Views$Public", kind := .interface },
      { name := "com.acme.Views$Internal", kind := .interface,
        interfaces := [.plain "com.acme.Views$Public"] },
      { name := "com.acme.Secret", members :=
        [{ name := "code", type := .plain "string",
           directives := [(.jsonView, [("value", .str "com.acme.Views$Internal")])] }] }, d]
  config := {}

/-- A record that holds the secret. -/
def vault : Decl :=
  { name := "com.acme.Vault", members := [{ name := "secret", type := .plain "com.acme.Secret" }] }

/-- A record whose directive names the secret. -/
def shape : Decl :=
  { name := "com.acme.Shape", directives :=
    [(.schema, [("oneOf", .arr [.str "com.acme.Secret"])])] }

/-- A request for a type in the outer view. -/
def publicly (name : String) : Request :=
  { type := .plain name, scope := { view := some "com.acme.Views$Public" } }

/-- The secret is registered for the view of the vault, and shows nothing. -/
theorem confined_resolve_vault :
    Unnamed (secretBeside vault) (publicly "com.acme.Vault") ∧
    (({} : Pass).resolve (secretBeside vault) (publicly "com.acme.Vault")).2.registry.schemas.map
      (fun entry => (entry.1, entry.2.propertyNames)) =
        [("Secret_Public", []), ("Vault_Public", ["secret"])] ∧
    ∀ entry ∈ (({} : Pass).resolve (secretBeside vault)
        (publicly "com.acme.Vault")).2.registry.schemas,
      Confined (secretBeside vault) (publicly "com.acme.Vault") false
        (({} : Pass).resolve (secretBeside vault) (publicly "com.acme.Vault")).2 entry := by
  have unnamed : Unnamed (secretBeside vault) (publicly "com.acme.Vault") :=
    .of_all (by decide +kernel)
  exact ⟨unnamed, by decide +kernel, (confined_resolve _ _).2 unnamed⟩

/-- Whether all properties that a request registers come from members of declarations that belong
to its view. -/
def StaysInView (env : Environment) (r : Request) : Prop :=
  ∀ entry ∈ (({} : Pass).resolve env r).2.registry.schemas,
    ∃ name d, env.types.get? name = some d ∧
      ∀ property, entry.2.Lists property →
        Origin env (({} : Pass).resolve env r).2 d r.scope.view property

/-- The code of the secret is registered for a view in which no member is visible. -/
theorem not_staysInView_shape :
    ¬ StaysInView (secretBeside shape) (publicly "com.acme.Shape") := by
  intro inView
  have leaked : ((({} : Pass).resolve (secretBeside shape)
      (publicly "com.acme.Shape")).2.registry.schemas.any fun entry =>
        entry.2.propertyNames.contains "code") = true := by decide +kernel
  have hidden : ((secretBeside shape).types.decls.all fun entry => entry.2.members.all fun m =>
      !m.isVisible (secretBeside shape) entry.2 (publicly "com.acme.Shape").scope.view) = true := by
    decide +kernel
  have alone : ((secretBeside shape).types.decls.all fun entry =>
      (entry.2.directives.get? .schema).all fun directive =>
        (directive.texts "allOf").isEmpty) = true := by
    decide +kernel
  obtain ⟨entry, hentry, code⟩ := List.any_eq_true.mp leaked
  obtain ⟨name, d, hget, origins⟩ := inView entry hentry
  have declared := Assoc.mem_of_get? hget
  have invisible {m : Member} (hm : m ∈ d.members) (visible : m.isVisible (secretBeside shape) d
      (publicly "com.acme.Shape").scope.view = true) : False := by
    have not := List.all_eq_true.mp (List.all_eq_true.mp hidden _ declared) m hm
    rw [visible] at not
    cases not
  obtain ⟨property, hproperty, -⟩ := List.mem_map.mp (List.contains_iff_mem.mp code)
  cases origins property (.own hproperty) with
  | own hm visible => exact invisible hm visible
  | inlined hm visible => exact invisible hm visible
  | constant stated composed =>
    have none := List.all_eq_true.mp alone _ declared
    rw [stated] at none
    exact composed (List.isEmpty_iff.mp none)

end Pass

end Schemata
