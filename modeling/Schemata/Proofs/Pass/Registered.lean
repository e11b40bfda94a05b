import Schemata.Proofs.Pass.Contract

/-!
# What is registered

Every registered schema was built for a declared type, from one state of the pass to another.  What
was registered, named and noted by then stays, so that whatever is known of the step that built a
definition is known of the definition in the end.
-/
namespace Schemata

open Pass

namespace Pass

/-- A registered schema was built for a declared type while the pass went from one state to another.
It has a name that was assigned to the type, and what was registered and noted by then is still
there. -/
structure BuiltFor (env : Environment) (z : Pass) (entry : String × Schema) (d : Decl)
    (t : TypeRef) (scope : Scope) (p q : Pass) : Prop where
  declared : env.types.declOf? t = some d
  named : ∃ element key, (d.nameRequest element t scope).candidate env.config env.types = some key ∧
    z.names.assigned.get? key = some entry.1
  built : ∃ depth s, Yields ((Compiler.ofDepth env depth).build env d t scope) p s q ∧
    entry.2 = { d.documented s with name := some entry.1 }
  schemas : q.registry.schemas <+: z.registry.schemas
  diagnostics : q.diagnostics <+: z.diagnostics

variable {env : Environment} {d : Decl} {t : TypeRef} {scope : Scope} {p q z : Pass}
  {entry : String × Schema}

/-- What a later state keeps; a definition that is finished is no longer in progress. -/
theorem BuiltFor.later {start last : Pass} (h : BuiltFor env q entry d t scope start last)
    (schemas : q.registry.schemas <+: z.registry.schemas)
    (assigned : ∀ {key name}, q.names.assigned.get? key = some name →
      z.names.assigned.get? key = some name)
    (diagnostics : q.diagnostics <+: z.diagnostics) :
    BuiltFor env z entry d t scope start last := by
  obtain ⟨element, key, hkey, given⟩ := h.named
  exact ⟨h.declared, ⟨element, key, hkey, assigned given⟩, h.built, h.schemas.trans schemas,
    h.diagnostics.trans diagnostics⟩

/-- A new definition was built for its type. -/
theorem builtFor_withSchema {depth : Nat} {element : Option Element} {name : String}
    {names : NameTable} {s : Schema} (declared : env.types.declOf? t = some d)
    (given : p.names.compute env.config env.types (d.nameRequest element t scope) =
      some (.ok (name, names)))
    (built : Yields ((Compiler.ofDepth env depth).build env d t scope)
      (startName name (p.withNames names)) s q) :
    BuiltFor env (q.withSchema name (d.documented s))
      (name, { d.documented s with name := some name }) d t scope
      (startName name (p.withNames names)) q := by
  have grows : Grows (startName name (p.withNames names)) q :=
    ((frame_grows env).course.build fun call _ => (frame_grows env).ofDepth depth call).yields built
  obtain ⟨key, hkey, assigned⟩ := NameTable.given_of_compute given
  exact ⟨declared, ⟨element, key, hkey, grows.assigned assigned⟩, ⟨depth, s, built, rfl⟩,
    schemas_prefix_register (q.registry.finish name) name _, List.prefix_refl _⟩

theorem mem_schemas_withSchema_self {name : String} {s : Schema}
    (new : p.registry.contains name = false) :
    (name, { s with name := some name }) ∈ (p.withSchema name s).registry.schemas := by
  have new' : (p.registry.finish name).contains name = false := new
  simp [withSchema, finishName, Registry.register, new']

/-- What is registered from one state to the other was built for declared types. -/
def AddsBuilt (env : Environment) (p q : Pass) : Prop :=
  Grows p q ∧ ∀ entry ∈ q.registry.schemas, entry ∈ p.registry.schemas ∨
    ∃ d t scope start last, BuiltFor env q entry d t scope start last

theorem AddsBuilt.trans {p q r : Pass} (first : AddsBuilt env p q) (second : AddsBuilt env q r) :
    AddsBuilt env p r := by
  refine ⟨first.1.trans second.1, fun entry hentry => ?_⟩
  rcases second.2 entry hentry with old | new
  · refine (first.2 entry old).imp_right fun ⟨d, t, scope, start, last, h⟩ => ?_
    exact ⟨d, t, scope, start, last,
      h.later second.1.schemas second.1.assigned second.1.diagnostics⟩
  · exact .inr new

theorem course_addsBuilt (env : Environment) : Course fun p _ q => AddsBuilt env p q where
  refl p := ⟨.refl p, fun _ => .inl⟩
  report p ds := ⟨.report p ds, fun _ => .inl⟩
  trans := AddsBuilt.trans

/-- A definition registers what was built for its declaration. -/
theorem addsBuilt_ends {depth : Nat} {element : Option Element} {o : Option Stop}
    (hc : ∀ call : Call, call.Takes (fun p _ q => AddsBuilt env p q) (.ofDepth env depth))
    (ends : (Compiler.ofDepth env depth).Ends env element t scope p o q) : AddsBuilt env p q := by
  have build (d : Decl) : Takes (fun p _ q => AddsBuilt env p q)
      ((Compiler.ofDepth env depth).build env d t scope) :=
    (course_addsBuilt env).build fun call _ => hc call
  refine ⟨(frame_grows env).ends ((frame_grows env).ofDepth depth) ends, fun entry hentry => ?_⟩
  cases ends with
  | yields answer =>
    cases answer with
    | undeclared => exact .inl hentry
    | known => exact .inl hentry
    | @built d name names s q' declared given new built =>
      rcases mem_schemas_withSchema hentry with old | rfl
      · have before := ((build d).yields built).2
        rw [schemas_startName] at before
        refine (before entry old).imp_right fun ⟨d', t', scope', start, last, h⟩ => ?_
        exact ⟨d', t', scope', start, last,
          h.later (schemas_prefix_register (q'.registry.finish name) name _) id
            (List.prefix_refl _)⟩
      · exact .inr ⟨d, t, scope, _, q', builtFor_withSchema declared given built⟩
  | nameless => exact .inl hentry
  | refused => exact .inl hentry
  | @stopped d name names e q' declared given new stopped =>
    obtain ⟨grows, before⟩ := (build d).stops stopped
    rw [schemas_startName] at before
    refine (before entry hentry).imp_right fun ⟨d', t', scope', start, last, h⟩ => ?_
    exact ⟨d', t', scope', start, last, h.later (List.prefix_refl _) id (List.prefix_refl _)⟩

/-- All that is registered was built for declared types, whether requests are answered or stop. -/
theorem exists_builtFor (env : Environment) (rs : List Request) {entry : String × Schema}
    (registered : entry ∈ (after env rs).registry.schemas) :
    ∃ d t scope p q, BuiltFor env (after env rs) entry d t scope p q := by
  have takes (depth : Nat) (call : Call) (_ : True) :
      call.Takes (fun p _ q => AddsBuilt env p q) (.ofDepth env depth) :=
    (course_addsBuilt env).ofDepth (fun _ => True) (course_addsBuilt env).refl
      (fun _ _ _ => trivial) (fun hc _ => addsBuilt_ends fun call => hc call trivial)
      depth trivial
  obtain ⟨-, built⟩ : AddsBuilt env {} (after env rs) :=
    (course_addsBuilt env).trail.serve takes fun _ _ _ _ => trivial
  exact (built entry registered).resolve_left fun none => by cases none

end Pass

end Schemata
