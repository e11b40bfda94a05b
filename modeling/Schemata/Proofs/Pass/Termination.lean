import Mathlib.Data.List.Nodup
import Mathlib.Data.List.Perm.Subperm
import Mathlib.Tactic.Ring
import Schemata.Proofs.Pass.Descent
import Schemata.Proofs.Pass.Reach
import Schemata.Proofs.Schema.Following
import Schemata.Proofs.Universe.Walks

/-!
# Every request ends

Between two definitions there is less and less inside the types that are asked for, unless one of
them is inside itself, and a definition that is entered has a name that no definition around it
has.  There are no more names than ways to combine a type, a stereotype and a view of the
vocabulary, so that the depth of a request is never used up.
-/
namespace Schemata

open Pass

namespace Vocabulary

variable {env : Environment} {v : Vocabulary env} {views : List (Option String)}

/-! ### Names -/

/-- The stereotypes that can be stated. -/
def stereotypes (v : Vocabulary env) : List (Option String) := none :: v.texts.map some

/-- What the name of a type under a stereotype and a view is assigned to. -/
def keyOf? (env : Environment) (t : TypeRef) (stereotype view : Option String) :
    Option (String × String) :=
  (env.types.declOf? t).bind fun d => NameRequest.candidate
    { type := t, explicit := (d.directives.get? .schema).bind (Directive.text? · "name"),
      stereotype := stereotype, view := view } env.config env.types

/-- All that names can be assigned to. -/
def keys (v : Vocabulary env) (views : List (Option String)) : List (String × String) :=
  v.types.flatMap fun t => v.stereotypes.flatMap fun stereotype =>
    views.filterMap (keyOf? env t stereotype)

theorem length_keys_le (v : Vocabulary env) (views : List (Option String)) :
    (v.keys views).length ≤ v.types.length * ((v.texts.length + 1) * views.length) := by
  rw [keys, length_flatMap_eq_sumOf]
  refine sumOf_le_length_mul fun t _ => ?_
  rw [length_flatMap_eq_sumOf]
  refine Nat.le_trans (sumOf_le_length_mul fun stereotype _ => List.length_filterMap_le _ _) ?_
  rw [stereotypes, List.length_cons, List.length_map]

theorem stereotype_mem {element : Option Element} (speaks : v.Speaks element) {name : String}
    {d : Decl} (declared : env.types.get? name = some d) :
    d.stereotype? element ∈ v.stereotypes := by
  cases hname : d.stereotype? element with
  | none => exact List.mem_cons_self
  | some text =>
    refine List.mem_cons_of_mem _ (List.mem_map.mpr ⟨text, ?_, rfl⟩)
    obtain ⟨directive, hdirective, stated⟩ := Option.bind_eq_some_iff.mp hname
    have written : text ∈ Json.textsInMembers directive := by
      rcases Option.or_eq_some_iff.mp stated with named | ⟨-, value⟩
      · exact Directive.mem_texts_of_text? named
      · exact Directive.mem_texts_of_text? value
    rcases Option.or_eq_some_iff.mp hdirective with ofElement | ⟨-, own⟩
    · obtain ⟨e, he, hget⟩ := Option.bind_eq_some_iff.mp ofElement
      exact speaks e he (Directives.textsIn_subset_of_get? hget written)
    · exact v.ownTexts declared (Directives.textsIn_subset_of_get? own written)

/-- The name of a definition is assigned to a key of the vocabulary. -/
theorem key_mem {element : Option Element} {t : TypeRef} {scope : Scope} {d : Decl}
    {key : String × String} (within : (Call.define element t scope).Within v views)
    (declared : env.types.declOf? t = some d)
    (hkey : (d.nameRequest element t scope).candidate env.config env.types = some key) :
    key ∈ v.keys views := by
  obtain ⟨speaks, ht, hview, -⟩ := within
  obtain ⟨name, -, hget⟩ := Option.bind_eq_some_iff.mp declared
  refine List.mem_flatMap.mpr ⟨t, ht, List.mem_flatMap.mpr
    ⟨d.stereotype? element, stereotype_mem speaks hget, List.mem_filterMap.mpr
      ⟨scope.view, hview, ?_⟩⟩⟩
  rw [keyOf?, declared]
  exact hkey

end Vocabulary

/-! ### Definitions in progress -/

/-- The definitions in progress are these, and every name was assigned to some key. -/
structure Stacked (keys : List (String × String)) (stack : List String) (p : Pass) : Prop where
  inProgress : p.registry.inProgress = stack
  nodup : stack.Nodup
  given : ∀ name ∈ stack, ∃ key ∈ keys, p.names.assigned.get? key = some name

namespace Stacked

variable {keys : List (String × String)} {stack : List String} {p q : Pass}

/-- One key has one name, so that there are no more names than keys. -/
theorem length_le (h : Stacked keys stack p) : stack.length ≤ keys.length := by
  have sub : stack ⊆ keys.filterMap p.names.assigned.get? := by
    intro name hname
    obtain ⟨key, hkey, given⟩ := h.given name hname
    exact List.mem_filterMap.mpr ⟨key, hkey, given⟩
  exact Nat.le_trans (h.nodup.subperm sub).length_le (List.length_filterMap_le _ _)

theorem later (h : Stacked keys stack p) (grows : Grows p q) : Stacked keys stack q := by
  refine ⟨grows.inProgress.trans h.inProgress, h.nodup, fun name hname => ?_⟩
  obtain ⟨key, hkey, given⟩ := h.given name hname
  exact ⟨key, hkey, grows.assigned given⟩

/-- A definition that is entered has a name of its own. -/
theorem start (h : Stacked keys stack p) {name : String} {key : String × String}
    (hkey : key ∈ keys) (given : p.names.assigned.get? key = some name)
    (new : p.isKnown name = false) : Stacked keys (stack ++ [name]) (startName name p) := by
  have fresh : name ∉ stack := h.inProgress ▸ (isKnown_eq_false_iff.mp new).2
  refine ⟨by rw [inProgress_startName new, h.inProgress], ?_, fun other hother => ?_⟩
  · refine List.nodup_append.mpr ⟨h.nodup, List.nodup_singleton name, ?_⟩
    rintro other hother _ hname rfl
    exact fresh (List.mem_singleton.mp hname ▸ hother)
  · rcases List.mem_append.mp hother with before | last
    · exact h.given other before
    · rw [List.mem_singleton.mp last]
      exact ⟨key, hkey, given⟩

end Stacked

/-- A step that starts with these definitions in progress ends. -/
def EndsWithin (keys : List (String × String)) (stack : List String) (p : Pass)
    (o : Option Stop) (q : Pass) : Prop :=
  Grows p q ∧ (Stacked keys stack p → o ≠ some .endless)

theorem course_endsWithin (keys : List (String × String)) (stack : List String) :
    Course (EndsWithin keys stack) where
  refl p := ⟨.refl p, fun _ => nofun⟩
  report p ds := ⟨Grows.report p ds, fun _ => nofun⟩
  trans first second := ⟨first.1.trans second.1, fun h => second.2 (h.later first.1)⟩

/-- Nothing that the request leads to is inside itself. -/
def Request.IsStraight (env : Environment) (r : Request) : Prop :=
  ∀ {named t scope}, Met env r named (.resolve none t scope) → ¬ Loops env t

/-- The depth that is needed with some definitions in progress. -/
noncomputable def Call.need {env : Environment} (v : Vocabulary env)
    (keys : List (String × String)) (stack : List String) (call : Call) : Nat :=
  (keys.length - stack.length) * (v.types.length + 3) + call.steps v

section

variable {env : Environment} {v : Vocabulary env} {views : List (Option String)} {r : Request}

/-- Where every call inside a definition ends, the definition does. -/
theorem endsWithin_defined (hu : env.types.Concrete) (bare : none ∈ views) {stack : List String}
    {element : Option Element} {t : TypeRef} {scope : Scope} {depth : Nat}
    (within : (Call.define element t scope).Within v views)
    {named : Bool} (met : Met env r named (.define element t scope))
    (inner : ∀ name call named, call.Within v views → Met env r named call →
      call.steps v ≤ v.types.length + 2 → (stack ++ [name]).length ≤ (v.keys views).length →
        call.Takes (EndsWithin (v.keys views) (stack ++ [name])) (Compiler.ofDepth env depth)) :
    Takes (EndsWithin (v.keys views) stack)
      ((Compiler.ofDepth env depth).defined env element t scope) := by
  intro p
  have ends := Compiler.ends_defined (Compiler.ofDepth env depth) env element t scope p
  refine ⟨(frame_grows _).ends ((frame_grows _).ofDepth depth) ends, fun stacked => ?_⟩
  generalize stop? _ p = o at ends ⊢
  generalize stateAfter _ p = q at ends
  cases ends with
  | yields => exact fun same => by cases same
  | @nameless d declared unnamed =>
    obtain ⟨key, hkey⟩ :=
      (d.nameRequest element t scope).exists_candidate env.config env.types
    rw [NameTable.compute, hkey] at unnamed
    cases unnamed
  | refused => exact fun same => by cases same
  | @stopped d name names e q' declared named new stopped =>
    obtain ⟨key, hkey, given⟩ := NameTable.given_of_compute named
    have entered : Stacked (v.keys views) (stack ++ [name])
        (startName name (p.withNames names)) := by
      have assigned : Grows p (p.withNames names) := (frame_grows env).assign named
      exact (stacked.later assigned).start (Vocabulary.key_mem within declared hkey) given new
    have bindings : env.types.bindings t = [] :=
      Universe.bindings_eq_nil declared (within.2.2.2 d declared)
    obtain ⟨declName, -, hget⟩ := Option.bind_eq_some_iff.mp declared
    have body : Takes (EndsWithin (v.keys views) (stack ++ [name]))
        ((Compiler.ofDepth env depth).build env d t scope) := by
      refine (course_endsWithin _ _).build fun call hcall => ?_
      obtain ⟨named', met'⟩ := met.beyond declared hcall
      rw [bindings] at hcall
      obtain ⟨inside, few⟩ := Vocabulary.within_ofDefinition hu bare hget within.2.2.1 call hcall
      exact inner name call named' inside met' few entered.length_le
    exact (body.stops stopped).2 entered

/-- With the depth that it needs, every call ends that leads to no type inside itself. -/
theorem endsWithin_ofDepth (hu : env.types.Concrete) (keyed : env.types.Keyed)
    (bare : none ∈ views) (straight : r.IsStraight env) (depth : Nat) {stack : List String}
    {call : Call} (within : call.Within v views) {named : Bool} (met : Met env r named call)
    (enough : call.need v (v.keys views) stack ≤ depth) :
    call.Takes (EndsWithin (v.keys views) stack) (Compiler.ofDepth env depth) := by
  induction depth generalizing stack call named with
  | zero =>
    have positive : 0 < call.steps v := by
      rcases call with ⟨_ | _, _, _⟩ | _ <;> simp [Call.steps]
    rw [Call.need] at enough
    omega
  | succ depth ih =>
    cases call with
    | resolve element t scope =>
      refine (course_endsWithin _ _).occurrence fun call hcall => ?_
      obtain ⟨inside, fewer⟩ := Vocabulary.within_ofOccurrence hu keyed within call hcall
      have less := fewer fun s same => straight (same ▸ met.inside hcall)
      refine ih inside (met.inside hcall) ?_
      rw [Call.need] at enough ⊢
      omega
    | define element t scope =>
      refine endsWithin_defined hu bare within met
        fun name call named inside met few fits => ih inside met ?_
      rw [List.length_append, List.length_singleton] at fits
      have left : (v.keys views).length - stack.length =
          (v.keys views).length - (stack ++ [name]).length + 1 := by
        rw [List.length_append, List.length_singleton]
        omega
      rw [Call.need, left, Nat.succ_mul, Call.steps] at enough
      rw [Call.need]
      omega

end

/-- The fourth power of the size is beyond what a request needs. -/
theorem Budget.need_le_depth (env : Environment) {element : Option Element} {t : TypeRef}
    {names types : Nat}
    (hnames : names ≤ request env element t * ((request env element t + 1) * 2))
    (htypes : types ≤ request env element t) :
    names * (types + 3) + (types + 2) ≤ depth env element t := by
  generalize hsize : request env element t = size at hnames htypes
  have products : names * (types + 3) ≤ size * ((size + 1) * 2) * (size + 3) :=
    Nat.mul_le_mul hnames (Nat.add_le_add_right htypes 3)
  have fourth : size * ((size + 1) * 2) * (size + 3) + (size + 2) ≤ (size + 4) ^ 4 := by
    have expanded : (size + 4) ^ 4 = size * ((size + 1) * 2) * (size + 3) + (size + 2) +
        (size ^ 4 + 14 * size ^ 3 + 88 * size ^ 2 + 249 * size + 254) := by ring
    rw [expanded]
    exact Nat.le_add_right _ _
  have power : (size + 4) ^ 4 = depth env element t := by
    rw [← hsize]
    rfl
  omega

/-- The walks of a pass that have steps of their own go to their end: further steps find
nothing else. -/
structure WalksEnd (u : Universe) : Prop where
  lineage (d : Decl) (bindings : Bindings) (more : Nat) :
    u.lineageFrom (u.lineageSteps d + more) [d.name]
      ((u.composedParents d).map (TypeRef.substitute bindings)) = u.lineage d bindings
  ancestry (names : List String) (more : Nat) :
    u.closure (u.decls.length + 1 + more) names = u.reachable names
  properties (r : Registry) (s : Schema) (more : Nat) :
    (Schema.propertiesWith (Schema.follow r (r.schemas.length + 1 + more)) s []).1 =
      s.allProperties r

namespace Pass

/-- A request that leads to no type inside itself is not endless. -/
theorem ends_of_isStraight {env : Environment} (hu : env.types.Concrete)
    (keyed : env.types.Keyed) {p : Pass} (idle : p.registry.inProgress = []) {r : Request}
    (straight : r.IsStraight env) : (p.resolve env r).1 ≠ .error .endless := by
  intro stopped
  let v := Vocabulary.ofRequest hu r.element r.type
  let views := [none, r.scope.view]
  have speaks : v.Speaks r.element := by
    intro e he text htext
    refine List.mem_append_right _ (List.mem_append_right _ ?_)
    rwa [he]
  have start : r.type ∈ v.types :=
    Vocabulary.mem_typesOf (List.mem_cons_self) r.type.mem_occurrences_self
  obtain ⟨types, texts⟩ := Vocabulary.sizes_le env r.element r.type
  have names : (v.keys views).length ≤ Budget.request env r.element r.type *
      ((Budget.request env r.element r.type + 1) * 2) :=
    Nat.le_trans (v.length_keys_le views)
      (Nat.mul_le_mul types (Nat.mul_le_mul_right 2 (Nat.succ_le_succ texts)))
  have ends : Takes (EndsWithin (v.keys views) [])
      ((Compiler.serving env r.element r.type).request env r) := by
    refine (course_endsWithin _ _).request fun call hcall => ?_
    obtain ⟨inside, few⟩ := Vocabulary.within_ofRequest List.mem_cons_self speaks start
      (List.mem_cons_of_mem _ List.mem_cons_self) call hcall
    obtain ⟨named, met⟩ := Met.ofRequest hcall
    refine endsWithin_ofDepth hu keyed List.mem_cons_self straight _ inside met ?_
    have deep := Budget.need_le_depth env names types
    rw [Call.need, List.length_nil, Nat.sub_zero]
    exact Nat.le_trans (Nat.add_le_add_left few _) deep
  have stacked : Stacked (v.keys views) [] p := ⟨idle, List.nodup_nil, fun _ h => by cases h⟩
  have run : ((Compiler.serving env r.element r.type).request env r).run.run p =
      (.error .endless, (p.resolve env r).2) := Prod.ext stopped rfl
  exact (ends.stops run).2 stacked rfl

/-- Where no declaration has parameters of its own and the configuration replaces no type, no
request is endless, and nothing that it walks through is cut off. -/
theorem resolve_ends (n : Normalizer) {ds : List Decl} {config : Config}
    (concrete : Universe.OnlyConcrete ds) (custom : config.customSchemas = []) :
    (∀ rs r, ((after ⟨(Universe.initial n).insertAll ds, config⟩ rs).resolve
      ⟨(Universe.initial n).insertAll ds, config⟩ r).1 ≠ .error .endless) ∧
      WalksEnd ((Universe.initial n).insertAll ds) := by
  have hu := Universe.concrete_insertAll n concrete
  have keyed := Universe.keyed_insertAll n ds
  generalize (Universe.initial n).insertAll ds = u at hu keyed ⊢
  exact ⟨fun rs r => ends_of_isStraight hu keyed (idle_after _ rs)
      fun _ => not_loops_of_isSettled hu (Config.isSettled_of_customSchemas custom) _,
    u.lineageFrom_lineageSteps, u.closure_reachable,
    fun registry s more => by rw [Schema.propertiesWith_follow]; rfl⟩

/-- An owner whose pets are unwrapped into it, and who may be a pet or a friend of the pet. -/
def entangled : List Decl :=
  [{ name := "com.acme.Owner"
     superType := some (.plain "com.acme.Pet")
     directives := [(.schema, [("oneOf", .arr [.str "com.acme.Pet", .str "com.acme.Owner[]"])])]
     members :=
      [{ name := "pet", type := .plain "com.acme.Pet", directives := [(.unwrapped, [])] }] },
    { name := "com.acme.Pet"
      interfaces := [.plain "com.acme.Pet"]
      members :=
        [{ name := "friends"
           type := .generic "map" [.plain "string", .plain "com.acme.Owner"]
           directives := [(.schema, [("implementation", .str "list<com.acme.Owner>")])] }] }]

def owners : Request := { type := .array (.plain "com.acme.Owner") }

theorem resolve_ends_entangled :
    (Universe.OnlyConcrete entangled ∧ ({} : Config).customSchemas = []) ∧
      ((after ⟨(Universe.initial .standard).insertAll entangled, {}⟩ [owners]).resolve
        ⟨(Universe.initial .standard).insertAll entangled, {}⟩ owners).1 ≠ .error .endless := by
  have concrete : Universe.OnlyConcrete entangled := by
    intro d hd
    simp only [entangled, List.mem_cons, List.not_mem_nil, or_false] at hd
    rcases hd with rfl | rfl
    · exact ⟨rfl, by decide⟩
    · exact ⟨rfl, by decide⟩
  exact ⟨⟨concrete, rfl⟩, (resolve_ends .standard concrete rfl).1 [owners] owners⟩

end Pass

end Schemata
