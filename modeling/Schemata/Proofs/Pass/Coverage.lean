import Schemata.Proofs.Naming.Distinct
import Schemata.Proofs.Pass.Reach

/-!
# Runs in another order

A run is covered by a finished pass that was asked for the same types in whatever order: it
gives no names but those of the pass, and knows none that the pass does not know.  A definition
that the run builds was built in the pass as well, and whatever the one asks for in it, the
other one asked for.
-/
namespace Schemata

open Pass Comparison Schema

/-! ### Steps in parallel, the other way round -/

namespace Parallel

variable {c c' : Compiler} {calls : Call → Prop} {K : String → Prop} {α : Type}
  {m m' : PassM α} {post : (String → Prop) → α → α → Prop}

theorem symm (par : Parallel c c' .loose calls K m m' post) :
    Parallel c' c .loose calls K m' m fun K a a' => post K a' a := by
  have same {K : String → Prop} {s s' : Schema} (h : Comparison.loose.Alike K s s') :
      Comparison.loose.Alike K s' s :=
    ⟨h.isRef.symm, h.items.symm, fun exact => False.elim exact⟩
  induction par with
  | pure h => exact .pure h
  | report ds ds' => exact .report ds' ds
  | look _ ih => exact .look fun p p' _ => ih p' p fun exact => False.elim exact
  | resolve mem =>
    refine (resolve mem).weaken fun K' found found' _ h => ?_
    cases h with
    | none => exact .none
    | some h => exact .some ⟨h.nullable.symm, same h.schema⟩
  | define mem =>
    refine (define mem).weaken fun K' found found' _ h => ?_
    cases h with
    | none => exact .none
    | some h => exact .some (same h)
  | bind _ _ ihm ihf => exact .bind ihm fun K' a a' sub hmid => ihf K' a' a sub hmid

end Parallel

namespace Pass

variable {env : Environment} {types : List TypeRef} {z : Pass}

/-- No name has a number: all are the candidates that were asked for. -/
def Unnumbered (p : Pass) : Prop :=
  ∀ key name, p.names.assigned.get? key = some name → name = key.1

theorem Unnumbered.earlier {p q : Pass} (h : Unnumbered q) (grows : Grows p q) : Unnumbered p :=
  fun key name given => h key name (grows.assigned given)

/-- A step that is taken again at the end covers another one: where the other one starts from
what the end shows, it stays within that. -/
def Covers (z : Pass) (K : String → Prop) (m m' : PassM α)
    (post : (String → Prop) → α → α → Prop) : Prop :=
  ∀ V a V' p a' q, Yields m V a V' → Yields m' p a' q → Shows .loose V z → Shows .loose z V' →
    Shows .loose z p → Unnumbered q →
      Shows .loose z q ∧ ∃ K', (∀ name, K name → K' name) ∧ post K' a a'

end Pass

/-- A call to one compiler covers the same call to another. -/
def Call.Covers (z : Pass) (c c' : Compiler) : Call → Prop
  | .resolve element t scope => ∀ K, Pass.Covers z K (c.resolve element t scope)
      (c'.resolve element t scope) fun K' => Option.Rel (Comparison.loose.AlikeResolved K')
  | .define element t scope => ∀ K, Pass.Covers z K (c.define element t scope)
      (c'.define element t scope) fun K' => Option.Rel (Comparison.loose.Alike K')

/-- A step covers one that runs in parallel with it, if the calls do. -/
theorem Parallel.covers {c c' : Compiler} {z : Pass} {calls : Call → Prop} {K : String → Prop}
    {α : Type} {m m' : PassM α} {post : (String → Prop) → α → α → Prop}
    (par : Parallel c c' .loose calls K m m' post) (hc : c.Respects Grows) (hc' : c'.Respects Grows)
    (covers : ∀ call, calls call → call.Covers z c c') :
    Pass.Covers z K m m' post := by
  have course : Course fun p _ q => Grows p q := ⟨.refl, .report, .trans⟩
  induction par with
  | pure h =>
    intro V a V' p a' q left right _ _ start _
    obtain ⟨rfl, rfl⟩ := yields_pure.mp left
    obtain ⟨rfl, rfl⟩ := yields_pure.mp right
    exact ⟨start, _, fun _ => id, h⟩
  | report ds ds' =>
    intro V a V' p a' q _ right _ _ start _
    obtain rfl := yields_report.mp right
    exact ⟨.ofNames start.assigned start.known, _, fun _ => id, trivial⟩
  | look _ ih =>
    intro V a V' p a' q left right
    obtain ⟨_, _, looked, left⟩ := yields_bind.mp left
    obtain ⟨rfl, rfl⟩ := yields_get.mp looked
    obtain ⟨_, _, looked, right⟩ := yields_bind.mp right
    obtain ⟨rfl, rfl⟩ := yields_get.mp looked
    exact ih V p (fun exact => False.elim exact) V a V' p a' q left right
  | @resolve K _ _ _ mem => exact covers _ mem K
  | @define K _ _ _ mem => exact covers _ mem K
  | @bind K α β m m' f f' mid post hm hf ihm ihf =>
    intro V b V' p b' q left right below above start plain
    obtain ⟨a, V₁, first, second⟩ := yields_bind.mp left
    obtain ⟨a', p₁, first', second'⟩ := yields_bind.mp right
    -- both runs grow from step to step, whatever the other one comes to
    obtain ⟨_, _, sub, hmid⟩ := hm.post_of_yields first
    have grows₁ : Grows V V₁ := (hm.takes course fun call _ => hc call).yields first
    have grows₂ : Grows V₁ V' :=
      ((hf _ _ _ sub hmid).takes course fun call _ => hc call).yields second
    obtain ⟨_, _, sub', hmid'⟩ := hm.symm.post_of_yields first'
    have grows₃ : Grows p₁ q :=
      ((hf _ _ _ sub' hmid').symm.takes course fun call _ => hc' call).yields second'
    obtain ⟨within, K₁, sub₁, hmid₁⟩ := ihm V a V₁ p a' p₁ first first' below
      (above.trans grows₂.shows) start (plain.earlier grows₃)
    obtain ⟨within', K₂, sub₂, hpost⟩ := ihf K₁ a a' sub₁ hmid₁ V₁ b V' p₁ b' q second second'
      (grows₁.shows.trans below) above within plain
    exact ⟨within', K₂, fun name hname => sub₂ name (sub₁ name hname), hpost⟩

namespace Pass

variable {env : Environment} {types : List TypeRef} {z : Pass} {element : Option Element}
  {t : TypeRef} {K : String → Prop}

/-- Definitions share a name only if their declarations and bindings are the same. -/
def NamesApart (env : Environment) (types : List TypeRef) (z : Pass) : Prop :=
  ∀ name d t d' t', Gives env types z name d t → Gives env types z name d' t' →
    d = d' ∧ env.types.bindings t = env.types.bindings t'

theorem isKnown_of_withSchema {p : Pass} {name other : String} {s : Schema}
    (h : (p.withSchema name s).isKnown other = true) : p.isKnown other = true ∨ other = name := by
  have inProgress : (p.withSchema name s).registry.inProgress = p.registry.inProgress.erase name :=
    inProgress_register (p.registry.finish name) name s
  rw [isKnown_iff, inProgress] at h
  rcases h with registered | pending
  · obtain ⟨entry, hentry, rfl⟩ := List.mem_map.mp registered
    rcases mem_schemas_withSchema hentry with old | rfl
    · exact .inl (isKnown_of_mem_schemas old)
    · exact .inr rfl
  · exact .inl (isKnown_iff.mpr (.inr (List.mem_of_mem_erase pending)))

/-- What is registered under a known name shows nothing new. -/
theorem Shows.withSchema {p : Pass} {name : String} (h : Shows .loose z p)
    (known : z.isKnown name = true) (s : Schema) : Shows .loose z (p.withSchema name s) := by
  refine .ofNames h.assigned fun {other} hother => ?_
  rcases isKnown_of_withSchema hother with old | rfl
  · exact h.known old
  · exact known

theorem definedReference_shows (d : Decl) (name : String) (s : Schema) :
    (d.definedReference name s).isRef = true ∧ (d.definedReference name s).items = none := by
  unfold Decl.definedReference
  split <;> exact ⟨rfl, rfl⟩

/-- A definition yields a reference to the name that was given to it, and that is known. -/
theorem given_of_defines {c : Compiler} (hc : c.Respects Grows) {p q : Pass}
    {found : Option Schema} {d : Decl} (declared : env.types.declOf? t = some d)
    (defines : c.Defines env element t {} p found q) :
    ∃ key name r, (d.nameRequest element t {}).candidate env.config env.types = some key ∧
      q.names.assigned.get? key = some name ∧ q.isKnown name = true ∧ found = some r ∧
      r.isRef = true ∧ r.items = none := by
  cases defines with
  | undeclared unknown => cases unknown.symm.trans declared
  | @known _ name names declared' named known =>
    obtain rfl := Option.some.inj (declared'.symm.trans declared)
    obtain ⟨key, hkey, given⟩ := NameTable.given_of_compute named
    exact ⟨key, name, _, hkey, given, known, rfl, rfl, rfl⟩
  | @built _ name names s q' declared' named _ built =>
    obtain rfl := Option.some.inj (declared'.symm.trans declared)
    obtain ⟨key, hkey, given⟩ := NameTable.given_of_compute named
    have grows := built.grows ((frame_grows env).build hc _ t {})
    obtain ⟨isRef, items⟩ := definedReference_shows _ name (Decl.documented _ s)
    exact ⟨key, name, _, hkey, grows.assigned given, isKnown_withSchema_self _ _ _, rfl, isRef,
      items⟩

/-- A computed name adds nothing to what the end shows, if the end has it for its candidate. -/
theorem shows_withNames {p : Pass} {names : NameTable} {name : String} {request : NameRequest}
    {key : String × String} (start : Shows .loose z p)
    (named : p.names.compute env.config env.types request = some (.ok (name, names)))
    (hkey : request.candidate env.config env.types = some key)
    (given : z.names.assigned.get? key = some name) : Shows .loose z (p.withNames names) := by
  obtain ⟨⟨candidate, origin⟩, found, assigned⟩ := Option.map_eq_some_iff.mp named
  obtain rfl := Option.some.inj (hkey.symm.trans found)
  refine .ofNames (fun {key name} h => ?_) start.known
  rcases (NameTable.assigns_of_assign assigned).given_cases h with old | ⟨-, rfl, rfl⟩
  · exact start.assigned old
  · exact given

theorem isKnown_of_startName {p : Pass} {name other : String}
    (h : (startName name p).isKnown other = true) : p.isKnown other = true ∨ other = name := by
  unfold startName Registry.start at h
  split at h
  · exact .inl h
  · rw [isKnown_iff, List.mem_append, List.mem_singleton, ← or_assoc] at h
    exact h.imp_left isKnown_iff.mpr

theorem Shows.startName {p : Pass} {name : String} (h : Shows .loose z p)
    (known : z.isKnown name = true) : Shows .loose z (startName name p) := by
  refine .ofNames h.assigned fun {other} hother => ?_
  rcases isKnown_of_startName hother with old | rfl
  · exact h.known old
  · exact known

/-- What a finished pass knows is registered. -/
theorem get?_of_isKnown {name : String} (idle : z.registry.inProgress = [])
    (known : z.isKnown name = true) : ∃ s, z.registry.get? name = some s := by
  rw [isKnown_iff, idle, Registry.names, ← Assoc.contains_iff_mem_keys] at known
  exact Option.isSome_iff_exists.mp (known.resolve_right List.not_mem_nil)

/-- The end of a pass as it is seen from another one: requests that can be repeated, and
definitions that were built, each under a name of its own that has no number. -/
structure Complete (env : Environment) (types : List TypeRef) (z : Pass) : Prop where
  again : ∀ r ∈ requestsFor [] types, ∃ depth answer ds,
    Yields ((Compiler.ofDepth env depth).request env r) z answer (z.withDiagnostics ds)
  built : ∀ entry ∈ z.registry.schemas, BuiltBefore env types z entry.1
  idle : z.registry.inProgress = []
  plain : Unnumbered z
  apart : NamesApart env types z

/-- The schema of a known name is built within what the end shows. -/
theorem Complete.shows_build (h : Complete env types z) {depth : Nat}
    (ih : ∀ depth' call, Reached env types call →
      call.Covers z (.ofDepth env depth') (.ofDepth env depth))
    {d : Decl} {name : String} (gives : Gives env types z name d t) (known : z.isKnown name = true)
    {p q : Pass} {s : Schema} (start : Shows .loose z p) (unnumbered : Unnumbered q)
    (built : Yields ((Compiler.ofDepth env depth).build env d t {}) p s q) :
    Shows .loose z q := by
  obtain ⟨s₀, registered⟩ := get?_of_isKnown h.idle known
  obtain ⟨d', t', gives', depth', _, _, _, before, shows⟩ :=
    h.built _ (Assoc.mem_of_get? registered)
  obtain ⟨rfl, same⟩ := h.apart _ _ _ _ _ gives' gives
  obtain ⟨s', ds, again⟩ := build_again before shows
  obtain ⟨element, key, reached, declared, -⟩ := gives
  have par : Parallel (.ofDepth env depth') (.ofDepth env depth) .loose (Reached env types)
      (fun _ => True) ((Compiler.ofDepth env depth').build env d' t' {})
      ((Compiler.ofDepth env depth).build env d' t {}) _ :=
    .build id same fun call hcall => reached.beyond declared (same ▸ hcall)
  have covers := par.covers ((frame_grows env).ofDepth depth') ((frame_grows env).ofDepth depth)
    (ih depth')
  exact (covers z s' _ p s q again built (.refl _ z) (.ofNames id id) start
    unnumbered).1

/-- A definition whose candidate is a known name of the end shows nothing but what the end
shows. -/
theorem Complete.shows_defined (h : Complete env types z) {depth : Nat}
    (reached : Reached env types (.define element t {}))
    (ih : ∀ depth' call, Reached env types call →
      call.Covers z (.ofDepth env depth') (.ofDepth env depth))
    {d : Decl} (declared : env.types.declOf? t = some d) {key : String × String}
    (hkey : (d.nameRequest element t {}).candidate env.config env.types = some key)
    (given : z.names.assigned.get? key = some key.1) (known : z.isKnown key.1 = true)
    {p q : Pass} {found : Option Schema} (start : Shows .loose z p) (unnumbered : Unnumbered q)
    (defines : (Compiler.ofDepth env depth).Defines env element t {} p found q) :
    Shows .loose z q := by
  have candidate {name : String} {names : NameTable}
      (named : p.names.compute env.config env.types (d.nameRequest element t {}) =
        some (.ok (name, names)))
      (kept : ∀ {key name}, names.assigned.get? key = some name →
        q.names.assigned.get? key = some name) : name = key.1 := by
    obtain ⟨key', hkey', given'⟩ := NameTable.given_of_compute named
    obtain rfl := Option.some.inj (hkey'.symm.trans hkey)
    exact unnumbered _ _ (kept given')
  cases defines with
  | undeclared => exact .ofNames start.assigned start.known
  | @known d' name names declared' named =>
    obtain rfl := Option.some.inj (declared'.symm.trans declared)
    obtain rfl := candidate named id
    exact shows_withNames start named hkey given
  | @built d' name names s q' declared' named new built =>
    obtain rfl := Option.some.inj (declared'.symm.trans declared)
    have grows := built.grows
      ((frame_grows env).build ((frame_grows env).ofDepth depth) _ t {})
    obtain rfl := candidate named grows.assigned
    have begun := (shows_withNames start named hkey given).startName known
    have body : Shows .loose z q' :=
      h.shows_build ih ⟨element, key, reached, declared, hkey, given⟩ known begun unnumbered built
    exact body.withSchema known _

/-- A definition covers one that is asked for like it. -/
theorem Complete.covers_defined (h : Complete env types z) {depth depth' : Nat}
    (reached : Reached env types (.define element t {}))
    (ih : ∀ depth call, Reached env types call →
      call.Covers z (.ofDepth env depth) (.ofDepth env depth')) :
    Covers z K ((Compiler.ofDepth env depth).defined env element t {})
      ((Compiler.ofDepth env depth').defined env element t {})
      fun K' => Option.Rel (Comparison.loose.Alike K') := by
  have respects (depth : Nat) : (Compiler.ofDepth env depth).Respects Grows :=
    (frame_grows env).ofDepth depth
  intro V found V' p found' q left right below above start unnumbered
  have defines := Compiler.defines_of_yields left
  have defines' := Compiler.defines_of_yields right
  cases declared : env.types.declOf? t with
  | none =>
    obtain ⟨rfl, -⟩ := defines.of_undeclared declared
    obtain ⟨rfl, rfl⟩ := defines'.of_undeclared declared
    exact ⟨.ofNames start.assigned start.known, K, fun _ => id, .none⟩
  | some d =>
    obtain ⟨key, name, r, hkey, given, known, rfl, isRef, items⟩ :=
      given_of_defines (respects depth) declared defines
    obtain ⟨-, -, r', -, -, -, rfl, isRef', items'⟩ :=
      given_of_defines (respects depth') declared defines'
    have given := above.assigned given
    obtain rfl := h.plain _ _ given
    exact ⟨h.shows_defined reached ih declared hkey given (above.known known) start unnumbered
      defines', K, fun _ => id, .some ⟨isRef.trans isRef'.symm, by rw [items, items'],
        fun exact => False.elim exact⟩⟩

/-- Calls that were made for a complete end cover the calls of any run. -/
theorem Complete.covers_ofDepth (h : Complete env types z) (depth depth' : Nat) {call : Call}
    (reached : Reached env types call) :
    call.Covers z (.ofDepth env depth) (.ofDepth env depth') := by
  induction depth' generalizing depth call with
  | zero =>
    cases call <;> exact fun K V a V' p a' q _ right => absurd right not_yields_throw
  | succ depth' ih =>
    cases depth with
    | zero => cases call <;> exact fun K V a V' p a' q left => absurd left not_yields_throw
    | succ depth =>
      cases call with
      | resolve element t scope =>
        intro K
        have par : Parallel (.ofDepth env depth) (.ofDepth env depth') .loose (Reached env types)
            K _ _ _ := .occurrence fun call hcall => reached.inside hcall
        exact par.covers ((frame_grows env).ofDepth depth)
          ((frame_grows env).ofDepth depth') fun call => ih depth
      | define element t scope =>
        obtain rfl : scope = {} := reached.scope_eq
        exact fun K => h.covers_defined reached fun depth call => ih depth

/-- Requests for the types, in whatever order and number, show nothing but what the end shows. -/
theorem Complete.shows_serve (h : Complete env types z) {rs : List Request}
    (asked : rs ⊆ requestsFor [] types) {p : Pass} (start : Shows .loose z p)
    (answered : ∀ a ∈ (serve env p rs).1, a.isOk = true)
    (unnumbered : Unnumbered (serve env p rs).2) :
    Shows .loose z (serve env p rs).2 := by
  induction rs generalizing p with
  | nil => exact start
  | cons r rest ih =>
    obtain ⟨first, others⟩ := List.cons_subset.mp asked
    obtain ⟨answer, hanswer⟩ := exists_of_isOk (answered _ List.mem_cons_self)
    have yields : Yields ((Compiler.serving env r.element r.type).request env r) p answer
        (p.resolve env r).2 := Prod.ext hanswer rfl
    obtain ⟨depth, _, ds, again⟩ := h.again r first
    have par : Parallel (.ofDepth env depth) (.serving env r.element r.type) .loose
        (Reached env types) (fun _ => True) ((Compiler.ofDepth env depth).request env r)
        ((Compiler.serving env r.element r.type).request env r) _ :=
      .request (fun exact => False.elim exact) (reached_ofRequest first)
    have covers := par.covers ((frame_grows env).ofDepth depth) ((frame_grows env).ofDepth _)
      fun call => h.covers_ofDepth depth _
    have later : Grows (p.resolve env r).2 (serve env p (r :: rest)).2 :=
      (frame_grows env).serve _ rest
    have next := (covers z _ _ p answer _ again yields (.refl _ z)
      (.ofNames id id) start (unnumbered.earlier later)).1
    exact ih others next (fun a ha => answered a (List.mem_cons_of_mem _ ha)) unnumbered

/-! ### Names without numbers -/

/-- Names keep to their candidates as long as no number is given. -/
theorem frame_unnumbered (env : Environment) :
    Frame env fun p q => q.names.suffixes = [] → p.names.suffixes = [] ∧
      (Unnumbered p → Unnumbered q) where
  refl _ none := ⟨none, id⟩
  trans first second none := by
    obtain ⟨none', keeps'⟩ := second none
    obtain ⟨none'', keeps⟩ := first none'
    exact ⟨none'', fun start => keeps' (keeps start)⟩
  report _ _ none := ⟨none, id⟩
  assign {p request name names} named none := by
    obtain ⟨⟨candidate, origin⟩, -, assigned⟩ := Option.map_eq_some_iff.mp named
    cases NameTable.assigns_of_assign assigned with
    | again => exact ⟨none, id⟩
    | plain =>
      refine ⟨none, fun start key name given => ?_⟩
      rcases (NameTable.assigns_of_assign assigned).given_cases given with old | ⟨-, rfl, rfl⟩
      · exact start key name old
      · rfl
    | numbered => exact absurd none (Assoc.insert_ne_nil _ _ _)
  abandon _ body := body
  register _ _ body := body

theorem unnumbered_after {rs : List Request} (none : (after env rs).names.suffixes = []) :
    Unnumbered (after env rs) :=
  (((frame_unnumbered env).serve {} rs) none).2 fun _ _ h => by cases h

/-! ### Two orders -/

/-- All types are answered, and no name gets a number. -/
structure Served (env : Environment) (types : List TypeRef) : Prop where
  answered : ∀ a ∈ answers env (requestsFor [] types), a.isOk = true
  suffixes : (after env (requestsFor [] types)).names.suffixes = []

variable {order : List TypeRef}

theorem Served.complete (h : Served env types)
    (apart : NamesApart env types (after env (requestsFor [] types))) :
    Complete env types (after env (requestsFor [] types)) where
  again _ := request_again h.answered
  built _ := builtBefore_after h.answered
  idle := idle_after env _
  plain := unnumbered_after h.suffixes
  apart := apart

theorem Complete.shows_after (h : Complete env types z) (served : Served env order)
    (sub : order ⊆ types) : Shows .loose z (after env (requestsFor [] order)) := by
  have start : Shows .loose z {} :=
    .ofNames (fun given => by cases given) fun known => by cases known
  exact h.shows_serve (List.map_subset _ sub) start served.answered
    (unnumbered_after served.suffixes)

/-- In every order the types lead to the same names. -/
theorem Complete.of_perm (h : Complete env types z) (served : Served env order)
    (perm : order.Perm types) : Complete env order (after env (requestsFor [] order)) := by
  refine served.complete fun name d t d' t' gives gives' => ?_
  have shows := h.shows_after served perm.subset
  exact h.apart name d t d' t' ((gives.mono perm.subset).later shows)
    ((gives'.mono perm.subset).later shows)

end Pass

/-! ### Looking back -/

/-- What is registered for a declaration whose own schema is known. -/
def Decl.registered (d : Decl) (name : String) (s : Schema) : Schema :=
  { d.documented s with name := some name }

namespace Pass

/-- The pass as it would be while the definition of a name is in progress. -/
def reopened (p : Pass) (name : String) : Pass :=
  { p with
    registry :=
      { schemas := p.registry.schemas.filter (·.1 ≠ name)
        inProgress := name :: p.registry.inProgress } }

theorem isKnown_reopened {p : Pass} {name other : String} :
    (p.reopened name).isKnown other = true ↔ other = name ∨ p.isKnown other = true := by
  have names : other ∈ (p.reopened name).registry.names ↔
      other ≠ name ∧ other ∈ p.registry.names := by
    simp [reopened, Registry.names, Assoc.keys, and_comm]
  have inProgress : other ∈ (p.reopened name).registry.inProgress ↔
      other = name ∨ other ∈ p.registry.inProgress := List.mem_cons
  rw [isKnown_iff, isKnown_iff, names, inProgress]
  tauto

theorem Shows.reopened {p V : Pass} (h : Shows .loose V p) (name : String) :
    Shows .loose (V.reopened name) p :=
  .ofNames h.assigned fun known => isKnown_reopened.mpr (.inr (h.known known))

/-- Definitions look back if they read none that is registered after them: what was registered
for a name is what is built for it at the end of any other order, as long as the schemas that
were registered before it are the same there. -/
def LooksBack (env : Environment) (types : List TypeRef) : Prop :=
  ∀ order, order.Perm types → Served env order → ∀ earlier name s later,
    (after env (requestsFor [] types)).registry.schemas = earlier ++ (name, s) :: later →
    (∀ other s', Assoc.get? earlier other = some s' →
      (after env (requestsFor [] order)).registry.get? other = some s') →
    ∀ d t, Gives env types (after env (requestsFor [] types)) name d t → ∀ depth found ds,
      Yields ((Compiler.ofDepth env depth).build env d t {})
        ((after env (requestsFor [] order)).reopened name) found
        (((after env (requestsFor [] order)).reopened name).withDiagnostics ds) →
      d.registered name found = s

end Pass

end Schemata
