import Schemata.Proofs.Pass.Replay

/-!
# What a pass reaches

The types that a pass is asked for lead to occurrences and definitions, and definitions lead
further, whether they are built where they are met or were built before.  A pass that answers
all its requests has built a definition for each name that it registered, and would answer
again, and build again, without a change.
-/
namespace Schemata

open Pass Comparison

namespace Call

def scope : Call → Scope
  | .resolve _ _ scope => scope
  | .define _ _ scope => scope

variable {env : Environment} {element : Option Element} {t : TypeRef}

theorem scope_named {texts : List String} : ∀ call ∈ named texts, call.scope = {} := by
  intro call hcall
  obtain ⟨text, -, t, -, rfl⟩ := mem_named hcall
  rfl

theorem scope_ofMap {u : Universe} {args : List TypeRef} {scope : Scope} :
    ∀ call ∈ ofMap u args scope, call.scope = scope := by
  intro call hcall
  obtain ⟨key, rest, -, ⟨-, rfl⟩ | ⟨-, rfl⟩⟩ := mem_ofMap hcall
  · rfl
  · rfl

theorem scope_ofOpened {u : Universe} {scope : Scope} :
    ∀ call ∈ ofOpened u element t scope, call.scope = scope := by
  intro call hcall
  rcases mem_ofOpened hcall with ⟨_, -, rfl⟩ | ⟨_, -, inside⟩ | ⟨_, -, _, -, rfl⟩ | ⟨_, -, rfl⟩
  · rfl
  · exact scope_ofMap call inside
  · rfl
  · rfl

theorem scope_ofDefinition {d : Decl} {bindings : Bindings} :
    ∀ call ∈ ofDefinition env d bindings {}, call.scope = {} := by
  intro call hcall
  rcases mem_ofDefinition hcall with ⟨-, -, t, -, rfl⟩ | ⟨-, m, -, -, rfl⟩ | ⟨m, -, named⟩ | own
  · rfl
  · rfl
  · exact scope_named call named
  · exact scope_named call own

end Call

/-- The types that the directives of a declaration and of its members name. -/
def Decl.namedTypes (d : Decl) : List String :=
  ((d.directives.get? .schema).map Directive.typeNames).getD []
    ++ d.members.flatMap (·.directives.typeNames)

/-- What a request leads to, and whether a directive names a type on the way. -/
inductive Met (env : Environment) (r : Request) : Bool → Call → Prop where
  | asked : Met env r false (.resolve r.element r.type r.scope)
  | stated {e : Element} {call : Call} (element : r.element = some e)
      (hcall : call ∈ Call.named e.directives.typeNames) : Met env r true call
  | inside {named : Bool} {element : Option Element} {t : TypeRef} {scope : Scope} {call : Call}
      (h : Met env r named (.resolve element t scope))
      (hcall : call ∈ Call.ofOccurrence env element t scope) : Met env r named call
  | ancestor {named : Bool} {element : Option Element} {t parent : TypeRef} {scope : Scope}
      {d : Decl} (h : Met env r named (.define element t scope))
      (declared : env.types.declOf? t = some d)
      (hcall : .define none parent scope ∈
        Call.ofDefinition env d (env.types.bindings t) scope) :
      Met env r named (.define none parent scope)
  | member {named : Bool} {element : Option Element} {t type : TypeRef} {scope : Scope} {d : Decl}
      {m : Member} (h : Met env r named (.define element t scope))
      (declared : env.types.declOf? t = some d)
      (hcall : .resolve (some (.ofMember d m)) type scope ∈
        Call.ofDefinition env d (env.types.bindings t) scope) :
      Met env r named (.resolve (some (.ofMember d m)) type scope)
  | named {named : Bool} {element : Option Element} {t : TypeRef} {scope : Scope} {d : Decl}
      {call : Call} (h : Met env r named (.define element t scope))
      (declared : env.types.declOf? t = some d)
      (hcall : call ∈ Call.ofDefinition env d (env.types.bindings t) scope)
      (stated : call ∈ Call.named d.namedTypes) : Met env r true call

/-- The scope in which a request meets a type. -/
def Request.scopeOf (r : Request) (named : Bool) : Scope := if named then {} else r.scope

namespace Met

variable {env : Environment} {r : Request} {named : Bool} {call : Call}

theorem scope_eq (h : Met env r named call) : call.scope = r.scopeOf named := by
  induction h with
  | asked => rfl
  | stated _ hcall => exact Call.scope_named _ hcall
  | inside _ hcall ih => exact (Call.scope_ofOpened _ hcall).trans ih
  | ancestor _ _ _ ih => exact ih
  | member _ _ _ ih => exact ih
  | named _ _ _ stated => exact Call.scope_named _ stated

/-- Whatever a definition leads to is met, if the definition is. -/
theorem beyond {element : Option Element} {t : TypeRef} {scope : Scope} {d : Decl}
    (h : Met env r named (.define element t scope)) (declared : env.types.declOf? t = some d)
    (hcall : call ∈ Call.ofDefinition env d (env.types.bindings t) scope) :
    ∃ named', Met env r named' call := by
  rcases Call.mem_ofDefinition hcall with
    ⟨-, -, parent, -, rfl⟩ | ⟨-, m, -, -, rfl⟩ | ⟨m, hm, texts⟩ | own
  · exact ⟨_, h.ancestor declared hcall⟩
  · exact ⟨_, h.member declared hcall⟩
  · refine ⟨_, h.named declared hcall (Call.named_subset (fun text htext => ?_) texts)⟩
    exact List.mem_append_right _ (List.mem_flatMap.mpr ⟨m, hm, htext⟩)
  · exact ⟨_, h.named declared hcall (Call.named_subset (List.subset_append_left _ _) own)⟩

theorem ofRequest (hcall : call ∈ Call.ofRequest r) : ∃ named, Met env r named call := by
  rcases Call.mem_ofRequest hcall with rfl | ⟨e, element, texts⟩
  · exact ⟨_, .asked⟩
  · exact ⟨_, .stated element texts⟩

end Met

/-- What requests for some types lead to, beyond definitions as well. -/
inductive Reached (env : Environment) (types : List TypeRef) : Call → Prop where
  | asked {t : TypeRef} (h : t ∈ types) : Reached env types (.resolve none t {})
  | inside {element : Option Element} {t : TypeRef} {scope : Scope} {call : Call}
      (h : Reached env types (.resolve element t scope))
      (hcall : call ∈ Call.ofOccurrence env element t scope) : Reached env types call
  | beyond {element : Option Element} {t : TypeRef} {scope : Scope} {d : Decl} {call : Call}
      (h : Reached env types (.define element t scope)) (declared : env.types.declOf? t = some d)
      (hcall : call ∈ Call.ofDefinition env d (env.types.bindings t) scope) :
      Reached env types call

theorem Reached.scope_eq {env : Environment} {types : List TypeRef} {call : Call}
    (h : Reached env types call) : call.scope = {} := by
  induction h with
  | asked => rfl
  | inside _ hcall ih => exact (Call.scope_ofOpened _ hcall).trans ih
  | beyond _ _ hcall ih =>
    obtain rfl : _ = ({} : Scope) := ih
    exact Call.scope_ofDefinition _ hcall

theorem Reached.mono {env : Environment} {types types' : List TypeRef} {call : Call}
    (h : Reached env types call) (sub : types ⊆ types') : Reached env types' call := by
  induction h with
  | asked h => exact .asked (sub h)
  | inside _ hcall ih => exact ih.inside hcall
  | beyond _ declared hcall ih => exact ih.beyond declared hcall

namespace Pass

variable {env : Environment} {types : List TypeRef}

theorem Shows.trans {C : Comparison} {p q r : Pass} (h : Shows C r q) (h' : Shows C q p) :
    Shows C r p :=
  ⟨fun given => h.assigned (h'.assigned given), fun known => h.known (h'.known known),
    fun exact => (h'.schemas exact).trans (h.schemas exact)⟩

/-- What is shown of names alone. -/
theorem Shows.ofNames {p q : Pass}
    (assigned : ∀ {key : String × String} {name : String},
      p.names.assigned.get? key = some name → q.names.assigned.get? key = some name)
    (known : ∀ {name : String}, p.isKnown name = true → q.isKnown name = true) :
    Shows .loose q p :=
  ⟨assigned, known, fun exact => False.elim exact⟩

theorem Grows.shows {p q : Pass} (h : Grows p q) : Shows .loose q p := .ofNames h.assigned h.isKnown

theorem shows_withSchema (p : Pass) (name : String) (s : Schema) :
    Shows .loose (p.withSchema name s) p :=
  .ofNames id (isKnown_withSchema p name s)

/-- The state has given the name to a definition that the types lead to. -/
def Gives (env : Environment) (types : List TypeRef) (z : Pass) (name : String) (d : Decl)
    (t : TypeRef) : Prop :=
  ∃ element key, Reached env types (.define element t {}) ∧ env.types.declOf? t = some d ∧
    (d.nameRequest element t {}).candidate env.config env.types = some key ∧
    z.names.assigned.get? key = some name

/-- A definition of the name was built before the state. -/
def BuiltBefore (env : Environment) (types : List TypeRef) (z : Pass) (name : String) : Prop :=
  ∃ d t, Gives env types z name d t ∧ ∃ depth p s q,
    Yields ((Compiler.ofDepth env depth).build env d t {}) p s q ∧ Shows .loose z q

theorem Gives.mono {z : Pass} {types' : List TypeRef} {name : String} {d : Decl} {t : TypeRef}
    (h : Gives env types z name d t) (sub : types ⊆ types') : Gives env types' z name d t := by
  obtain ⟨element, key, reached, rest⟩ := h
  exact ⟨element, key, reached.mono sub, rest⟩

theorem Gives.later {q z : Pass} {name : String} {d : Decl} {t : TypeRef}
    (h : Gives env types q name d t) (shows : Shows .loose z q) : Gives env types z name d t := by
  obtain ⟨element, key, reached, declared, hkey, given⟩ := h
  exact ⟨element, key, reached, declared, hkey, shows.assigned given⟩

theorem BuiltBefore.later {q z : Pass} {name : String} (h : BuiltBefore env types q name)
    (shows : Shows .loose z q) : BuiltBefore env types z name := by
  obtain ⟨d, t, gives, depth, p, s, q', built, shows'⟩ := h
  exact ⟨d, t, gives.later shows, depth, p, s, q', built, shows.trans shows'⟩

/-- A step that does not stop builds a definition for each name that it registers. -/
def Builds (env : Environment) (types : List TypeRef) (p : Pass) (o : Option Stop) (q : Pass) :
    Prop :=
  o = none → Grows p q ∧ ∀ entry ∈ q.registry.schemas,
    entry ∈ p.registry.schemas ∨ BuiltBefore env types q entry.1

theorem course_builds (env : Environment) (types : List TypeRef) : Course (Builds env types) where
  refl p _ := ⟨.refl p, fun _ => .inl⟩
  report p ds _ := ⟨.report p ds, fun _ => .inl⟩
  trans first second ends := by
    obtain ⟨grows, before⟩ := first rfl
    obtain ⟨grows', after⟩ := second ends
    refine ⟨grows.trans grows', fun entry hentry => ?_⟩
    rcases after entry hentry with old | new
    · exact (before entry old).imp_right fun built => built.later grows'.shows
    · exact .inr new

theorem builds_ends {depth : Nat} {element : Option Element} {t : TypeRef} {scope : Scope}
    {p q : Pass} {o : Option Stop}
    (hc : ∀ call, Reached env types call → call.Takes (Builds env types) (.ofDepth env depth))
    (reached : Reached env types (.define element t scope))
    (ends : (Compiler.ofDepth env depth).Ends env element t scope p o q) :
    Builds env types p o q := by
  have respects := (frame_grows env).ofDepth depth
  intro answered
  refine ⟨(frame_grows env).ends respects ends, fun entry hentry => ?_⟩
  cases ends with
  | yields answer =>
    cases answer with
    | undeclared => exact .inl hentry
    | known => exact .inl hentry
    | @built d name names s q' declared named new built =>
      obtain ⟨grows, before⟩ := ((course_builds env types).build fun call hcall =>
        hc call (reached.beyond declared hcall)).yields built rfl
      obtain rfl : scope = {} := reached.scope_eq
      have shows := shows_withSchema q' name (d.documented s)
      rcases mem_schemas_withSchema hentry with old | rfl
      · rw [schemas_startName] at before
        exact (before entry old).imp_right fun built => built.later shows
      · obtain ⟨key, hkey, given⟩ := NameTable.given_of_compute named
        exact .inr ⟨d, t, ⟨element, key, reached, declared, hkey, grows.assigned given⟩, depth, _,
          s, q', built, shows⟩
  | nameless => cases answered
  | refused => cases answered
  | stopped => cases answered

theorem reached_ofRequest {r : Request} (h : r ∈ requestsFor [] types) :
    ∀ call ∈ Call.ofRequest r, Reached env types call := by
  obtain ⟨t, ht, rfl⟩ := List.mem_map.mp h
  intro call hcall
  rw [List.mem_singleton.mp hcall]
  exact .asked ht

/-- A fresh pass that answers all requests has built whatever it has registered. -/
theorem builtBefore_after (answered : ∀ a ∈ answers env (requestsFor [] types), a.isOk = true)
    {entry : String × Schema} (h : entry ∈ (after env (requestsFor [] types)).registry.schemas) :
    BuiltBefore env types (after env (requestsFor [] types)) entry.1 := by
  have takes (depth : Nat) (call : Call) (reached : Reached env types call) :
      call.Takes (Builds env types) (.ofDepth env depth) :=
    (course_builds env types).ofDepth (Reached env types) (fun _ h => by cases h)
      (fun reached _ hcall => reached.inside hcall) builds_ends depth reached
  obtain ⟨-, built⟩ :=
    (course_builds env types).serve takes (fun r => reached_ofRequest) answered rfl
  exact (built entry h).resolve_left fun none => by cases none

/-! ### Once more -/

theorem call_again (env : Environment) (depth : Nat) (call : Call) :
    call.Replays .loose {} (Compiler.ofDepth env depth) (Compiler.ofDepth env depth) := by
  have plain (call : Call) (_ : True) : loose.exact → ¬ call.Describes env {} :=
    fun exact => False.elim exact
  exact replays_ofDepth depth (fun _ _ _ => trivial) plain trivial

/-- A definition that was built is built again where all its names are known. -/
theorem build_again {depth : Nat} {d : Decl} {t : TypeRef} {scope : Scope} {p q V : Pass}
    {s : Schema} (built : Yields ((Compiler.ofDepth env depth).build env d t scope) p s q)
    (shows : Shows .loose V q) :
    ∃ s' ds, Yields ((Compiler.ofDepth env depth).build env d t scope) V s'
      (V.withDiagnostics ds) := by
  have par : Parallel (.ofDepth env depth) (.ofDepth env depth) .loose (fun _ => True)
      (fun _ => True) ((Compiler.ofDepth env depth).build env d t scope)
      ((Compiler.ofDepth env depth).build env d t scope) _ := .build id rfl fun _ _ => trivial
  obtain ⟨-, again⟩ := (par.replays fun call _ => call_again env depth call) p s q built
    fun exact => False.elim exact
  obtain ⟨K, s', ds, yields, -⟩ := again V shows
  exact ⟨s', ds, yields⟩

/-- A request that was answered is answered again at the end, which changes nothing. -/
theorem request_again (answered : ∀ a ∈ answers env (requestsFor [] types), a.isOk = true)
    {r : Request} (h : r ∈ requestsFor [] types) :
    ∃ depth answer ds, Yields ((Compiler.ofDepth env depth).request env r)
      (after env (requestsFor [] types)) answer
      ((after env (requestsFor [] types)).withDiagnostics ds) := by
  obtain ⟨earlier, later, split⟩ := List.append_of_mem h
  rw [split, answers, serve_append] at answered
  rw [split, after, serve_append]
  generalize (serve env {} earlier).2 = p at answered ⊢
  obtain ⟨answer, hanswer⟩ : ∃ answer, (p.resolve env r).1 = .ok answer :=
    exists_of_isOk (answered _ (List.mem_append_right _ List.mem_cons_self))
  have yields : Yields ((Compiler.serving env r.element r.type).request env r) p answer
      (p.resolve env r).2 := Prod.ext hanswer rfl
  have par : Parallel (.serving env r.element r.type) (.serving env r.element r.type) .loose
      (fun _ => True) (fun _ => True) ((Compiler.serving env r.element r.type).request env r)
      ((Compiler.serving env r.element r.type).request env r) _ :=
    .request (fun exact => False.elim exact) fun _ _ => trivial
  obtain ⟨-, again⟩ := (par.replays fun call _ => call_again env _ call) p answer _ yields
    fun exact => False.elim exact
  obtain ⟨K, answer', ds, yields', -⟩ := again _ ((frame_grows env).serve _ later).shows
  exact ⟨_, answer', ds, yields'⟩

end Pass

end Schemata
