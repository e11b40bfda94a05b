import Schemata.Proofs.Pass.Contract
import Schemata.Proofs.Pass.Course

/-!
# Replaying a step

A step that yielded a value is taken again in a state that shows what the first run left: the
names that it assigned, and that they are known.  Every definition that it asks for is known
there, so that it yields a value again and leaves the state as it is.  The values are equal
where the state shows the same schemas, and no collection is described where it is first
referred to.
-/
namespace Schemata

open Pass Comparison Schema

/-- What is computed once is computed again over a table with the same assignments. -/
theorem NameTable.compute_again {c : Config} {u : Universe} {request : NameRequest}
    {t t' later : NameTable} {name : String}
    (h : t.compute c u request = some (.ok (name, t')))
    (kept : ∀ {key : String × String} {other : String},
      t'.assigned.get? key = some other → later.assigned.get? key = some other) :
    later.compute c u request = some (.ok (name, later)) := by
  obtain ⟨key, hkey, given⟩ := given_of_compute h
  rw [compute, hkey, Option.map_some, assign, kept given]

namespace Pass

/-- The state shows what is known of names in another one, and where equal schemas are asked
for, what is registered there. -/
structure Shows (C : Comparison) (V q : Pass) : Prop where
  assigned {key : String × String} {name : String} :
    q.names.assigned.get? key = some name → V.names.assigned.get? key = some name
  known {name : String} : q.isKnown name = true → V.isKnown name = true
  schemas : C.exact → q.registry.schemas <+: V.registry.schemas

/-- Where equal schemas are asked for, the state has grown from the one at the start, where no
definition was in progress, and all names of the set are registered. -/
structure Level (start : Pass) (K : String → Prop) (p : Pass) : Prop where
  grows : Grows start p
  idle : start.registry.inProgress = []
  registered {name : String} : K name → p.registry.contains name = true

variable {C : Comparison} {start : Pass} {K : String → Prop} {p q V : Pass}

theorem Shows.refl (C : Comparison) (p : Pass) : Shows C p p :=
  ⟨id, id, fun _ => List.prefix_refl _⟩

theorem Shows.earlier (h : Shows C V q) (grows : Grows p q) : Shows C V p :=
  ⟨fun given => h.assigned (grows.assigned given), fun known => h.known (grows.isKnown known),
    fun exact => grows.schemas.trans (h.schemas exact)⟩

theorem Shows.views (h : Shows C V q) (level : C.exact → Level start K q) :
    C.Views K q.registry V.registry := by
  intro exact name hname
  obtain ⟨s, hs⟩ := Option.isSome_iff_exists.mp ((level exact).registered hname)
  obtain ⟨later, hlater⟩ := h.schemas exact
  rw [Registry.get?, Registry.get?, ← hlater, Assoc.get?_append, hs, Option.some_or]

/-- Whenever one step yields a value, another one does so in every state that shows what the
first one left, and changes nothing there. -/
def Replays (C : Comparison) (start : Pass) (K : String → Prop) (m m' : PassM α)
    (post : (String → Prop) → α → α → Prop) : Prop :=
  ∀ p a q, Yields m p a q → (C.exact → Level start K p) → Grows p q ∧ ∀ V, Shows C V q →
    ∃ K' a' ds, Yields m' V a' (V.withDiagnostics ds) ∧ (∀ name, K name → K' name) ∧
      (C.exact → Level start K' q) ∧ post K' a a'

theorem Shows.withDiagnostics (h : Shows C V q) (ds : Diagnostics) :
    Shows C (V.withDiagnostics ds) q :=
  ⟨h.assigned, h.known, h.schemas⟩

namespace Replays

variable {α β : Type} {m m' : PassM α} {post : (String → Prop) → α → α → Prop}

theorem pure {a a' : α} (h : post K a a') : Replays C start K (Pure.pure a) (Pure.pure a') post := by
  rintro p b q hm level
  obtain ⟨rfl, rfl⟩ := yields_pure.mp hm
  refine ⟨.refl p, fun V _ => ⟨K, a', [], ?_, fun _ => id, level, h⟩⟩
  rw [withDiagnostics_nil]
  exact yields_pure.mpr ⟨rfl, rfl⟩

theorem report (ds ds' : Diagnostics) :
    Replays C start K (Pass.report ds) (Pass.report ds') fun _ _ _ => True := by
  rintro p a q hm level
  obtain rfl := yields_report.mp hm
  refine ⟨.report p ds, fun V _ => ⟨K, (), ds', yields_report.mpr rfl, fun _ => id, ?_, trivial⟩⟩
  exact fun exact =>
    ⟨(level exact).grows.trans (.report p ds), (level exact).idle, (level exact).registered⟩

theorem bind {f f' : α → PassM β} {mid : (String → Prop) → α → α → Prop}
    {post : (String → Prop) → β → β → Prop} (hm : Replays C start K m m' mid)
    (hf : ∀ K' a a', (∀ name, K name → K' name) → mid K' a a' →
      Replays C start K' (f a) (f' a') post) : Replays C start K (m >>= f) (m' >>= f') post := by
  rintro p b q h level
  obtain ⟨a, p₁, first, second⟩ := yields_bind.mp h
  obtain ⟨grows, again⟩ := hm p a p₁ first level
  -- the first step can be replayed right after it, so the second one grows the pass
  obtain ⟨K₁, a₁, -, -, sub₁, level₁, hmid₁⟩ := again p₁ (.refl C p₁)
  obtain ⟨grows', -⟩ := hf K₁ a a₁ sub₁ hmid₁ p₁ b q second level₁
  refine ⟨grows.trans grows', fun V shows => ?_⟩
  obtain ⟨K₂, a₂, ds, yields, sub₂, level₂, hmid₂⟩ := again V (shows.earlier grows')
  obtain ⟨-, again'⟩ := hf K₂ a a₂ sub₂ hmid₂ p₁ b q second level₂
  obtain ⟨K₃, b', ds', yields', sub₃, level₃, hpost⟩ := again' _ (shows.withDiagnostics ds)
  refine ⟨K₃, b', ds ++ ds', ?_, fun name hname => sub₃ name (sub₂ name hname), level₃, hpost⟩
  rw [← withDiagnostics_append]
  exact yields_bind.mpr ⟨a₂, _, yields, yields'⟩

theorem look {f f' : Pass → PassM α}
    (h : ∀ p p', C.Views K p.registry p'.registry → Replays C start K (f p) (f' p') post) :
    Replays C start K (MonadState.get >>= f) (MonadState.get >>= f') post := by
  rintro p a q hm level
  obtain ⟨_, _, looked, second⟩ := yields_bind.mp hm
  obtain ⟨rfl, rfl⟩ := yields_get.mp looked
  have grows := (h p p ((Shows.refl C p).views level) p a q second level).1
  refine ⟨grows, fun V shows => ?_⟩
  have views := (shows.earlier grows).views level
  obtain ⟨K', a', ds, yields, rest⟩ := (h p V views p a q second level).2 V shows
  exact ⟨K', a', ds, yields_bind.mpr ⟨V, V, yields_get.mpr ⟨rfl, rfl⟩, yields⟩, rest⟩

end Replays

end Pass

/-- A call to one compiler is replayed by another. -/
def Call.Replays (C : Comparison) (start : Pass) (c c' : Compiler) : Call → Prop
  | .resolve element t scope => ∀ K, Pass.Replays C start K (c.resolve element t scope)
      (c'.resolve element t scope) fun K' => Option.Rel (C.AlikeResolved K')
  | .define element t scope => ∀ K, Pass.Replays C start K (c.define element t scope)
      (c'.define element t scope) fun K' => Option.Rel (C.Alike K')

/-- A step is replayed by one that runs in parallel with it, if the calls are. -/
theorem Parallel.replays {c c' : Compiler} {C : Comparison} {start : Pass} {calls : Call → Prop}
    {K : String → Prop} {α : Type} {m m' : PassM α} {post : (String → Prop) → α → α → Prop}
    (par : Parallel c c' C calls K m m' post)
    (hc : ∀ call, calls call → call.Replays C start c c') : Replays C start K m m' post := by
  induction par with
  | pure h => exact .pure h
  | report ds ds' => exact .report ds ds'
  | look _ ih => exact .look ih
  | @resolve K _ _ _ mem => exact hc _ mem K
  | @define K _ _ _ mem => exact hc _ mem K
  | bind _ _ ihm ihf => exact .bind ihm ihf

/-! ### Descriptions of first references -/

namespace Decl

/-- What the first reference to a collection is described by. -/
def referenceDescription (d : Decl) : Option String :=
  let labels := (d.documented { labels := d.ownLabels }).labels
  (labels.externalDocs.bind ExternalDocs.description).or labels.description

/-- Whether the first reference to the declaration is described, and no later one. -/
def describesReference (d : Decl) : Bool := d.kind = .iterable && d.referenceDescription.isSome

theorem definedReference_eq {d : Decl} {s : Schema} (name : String)
    (labels : s.labels = d.ownLabels) (plain : d.describesReference = false) :
    d.definedReference name (d.documented s) = .reference name := by
  unfold definedReference
  split
  · rename_i iterable
    have same : (d.documented s).labels = (d.documented { labels := d.ownLabels }).labels := by
      rw [documented, documented, labels]
    have nothing : d.referenceDescription = none := by
      simpa [describesReference, iterable] using plain
    rw [referenceDescription] at nothing
    rw [same, nothing]
    rfl
  · rfl

end Decl

namespace Call

/-- The call is for a name that was assigned and is known. -/
def Known (env : Environment) (p : Pass) : Call → Prop
  | .resolve _ _ _ => False
  | .define element t scope => ∃ d key name, env.types.declOf? t = some d ∧
      (d.nameRequest element t scope).candidate env.config env.types = some key ∧
      p.names.assigned.get? key = some name ∧ p.isKnown name = true

/-- The call is for a collection that is not known, and whose first reference is described. -/
def Describes (env : Environment) (p : Pass) : Call → Prop
  | .resolve _ _ _ => False
  | .define element t scope => (∃ d, env.types.declOf? t = some d ∧ d.describesReference = true) ∧
      ¬ Known env p (.define element t scope)

end Call

namespace Pass

variable {C : Comparison} {start : Pass} {K : String → Prop} {env : Environment}

theorem Level.later {p q : Pass} (h : Level start K p) (grows : Grows p q) : Level start K q := by
  refine ⟨h.grows.trans grows, h.idle, fun {name} hname => ?_⟩
  have registered := h.registered hname
  rw [Registry.contains, Assoc.contains_iff_mem_keys] at registered ⊢
  exact (grows.schemas.map Prod.fst).subset registered

theorem Level.withName {p : Pass} {name : String} (h : Level start K p)
    (known : p.isKnown name = true) : Level start (fun n => K n ∨ n = name) p := by
  refine ⟨h.grows, h.idle, ?_⟩
  rintro n (old | rfl)
  · exact h.registered old
  · rw [isKnown, Registry.isInProgress, h.grows.inProgress, h.idle] at known
    simpa using known

/-- A later definition finds the name that an earlier one left. -/
theorem yields_defined_again {c : Compiler} {d : Decl} {element : Option Element} {t : TypeRef}
    {scope : Scope} {p V : Pass} {names : NameTable} {name : String}
    (declared : env.types.declOf? t = some d)
    (named : p.names.compute env.config env.types (d.nameRequest element t scope) =
      some (.ok (name, names)))
    (kept : ∀ {key : String × String} {other : String},
      names.assigned.get? key = some other → V.names.assigned.get? key = some other)
    (known : V.isKnown name = true) :
    Yields (c.defined env element t scope) V (some (.reference name)) V := by
  have again := NameTable.compute_again named kept
  simp only [Compiler.defined, declared, yields_bind, yields_assignName, yields_get]
  refine ⟨name, V, ⟨V.names, again, rfl⟩, V, V, ⟨rfl, rfl⟩, ?_⟩
  rw [if_pos known]
  exact yields_pure.mpr ⟨rfl, rfl⟩

/-- A name that is known at the start is not new later on. -/
theorem Level.describesReference {p : Pass} {element : Option Element} {t : TypeRef} {scope : Scope}
    {d : Decl} {names : NameTable} {name : String} (h : Level start K p)
    (plain : ¬ Call.Describes env start (.define element t scope))
    (declared : env.types.declOf? t = some d)
    (named : p.names.compute env.config env.types (d.nameRequest element t scope) =
      some (.ok (name, names))) (new : p.isKnown name = false) : d.describesReference = false := by
  by_contra described
  refine plain ⟨⟨d, declared, by simpa using described⟩, ?_⟩
  rintro ⟨d', key, first, declared', hkey, given, known⟩
  obtain rfl := Option.some.inj (declared'.symm.trans declared)
  rw [NameTable.compute, hkey, Option.map_some, NameTable.assign, h.grows.assigned given] at named
  cases named
  exact Bool.false_ne_true (new.symm.trans (h.grows.isKnown known))

theorem alike_definedReference {d : Decl} {s : Schema} (name : String)
    (labels : s.labels = d.ownLabels) (plain : C.exact → d.describesReference = false) :
    C.Alike (fun n => K n ∨ n = name) (d.definedReference name (d.documented s))
      (.reference name) := by
  refine ⟨?_, ?_, fun exact => ?_⟩
  · unfold Decl.definedReference
    split <;> rfl
  · unfold Decl.definedReference
    split <;> rfl
  · rw [Decl.definedReference_eq name labels (plain exact)]
    exact ⟨rfl, .reference (.inr rfl)⟩

/-- A definition is replayed as a mention of the name that it was given. -/
theorem replays_defined {depth : Nat} {c' : Compiler} {element : Option Element} {t : TypeRef}
    {scope : Scope} (plain : C.exact → ¬ Call.Describes env start (.define element t scope)) :
    Replays C start K ((Compiler.ofDepth env depth).defined env element t scope)
      (c'.defined env element t scope) fun K' => Option.Rel (C.Alike K') := by
  intro p found q h level
  have answered := Compiler.defines_of_yields h
  have respects := (frame_grows env).ofDepth depth
  have grows : Grows p q := (frame_grows env).ends respects (.yields answered)
  refine ⟨grows, fun V shows => ?_⟩
  cases answered with
  | undeclared unknown =>
    refine ⟨K, none, [.undeclared env.types t.display t], ?_, fun _ => id,
      fun exact => (level exact).later grows, .none⟩
    simp only [Compiler.defined, unknown, yields_bind, yields_report, yields_pure]
    exact ⟨(), _, rfl, trivial, rfl⟩
  | @known d name names declared named known =>
    have again := yields_defined_again (c := c') declared named shows.assigned (shows.known known)
    refine ⟨fun n => K n ∨ n = name, _, [], by rwa [withDiagnostics_nil], fun _ => .inl,
      fun exact => ((level exact).later grows).withName known, .some (.refl fun _ => ?_)⟩
    exact .reference (.inr rfl)
  | @built d name names s q' declared named new built =>
    have body := built.grows ((frame_grows env).build respects d t scope)
    have known : (q'.withSchema name (d.documented s)).isKnown name = true :=
      isKnown_withSchema_self _ _ _
    have again := yields_defined_again (c := c') declared named
      (fun given => shows.assigned (body.assigned given)) (shows.known known)
    have par : Parallel (Compiler.ofDepth env depth) (Compiler.ofDepth env depth) .loose
        (fun _ => True) (fun _ => True) ((Compiler.ofDepth env depth).build env d t scope)
        ((Compiler.ofDepth env depth).build env d t scope) fun _ s _ => s.labels = d.ownLabels :=
      .build id rfl fun _ _ => trivial
    obtain ⟨-, -, -, labels⟩ := par.post_of_yields built
    refine ⟨fun n => K n ∨ n = name, _, [], by rwa [withDiagnostics_nil], fun _ => .inl,
      fun exact => ((level exact).later grows).withName known, .some ?_⟩
    exact alike_definedReference name labels fun exact =>
      (level exact).describesReference (plain exact) declared named new

/-- Compilers of one depth replay each other's calls, where no first reference is described. -/
theorem replays_ofDepth {calls : Call → Prop} (depth : Nat)
    (inside : ∀ {element t scope}, calls (.resolve element t scope) →
      ∀ call ∈ Call.ofOccurrence env element t scope, calls call)
    (plain : ∀ call, calls call → C.exact → ¬ call.Describes env start) {call : Call}
    (hcall : calls call) :
    call.Replays C start (Compiler.ofDepth env depth) (Compiler.ofDepth env depth) := by
  induction depth generalizing call with
  | zero => cases call <;> exact fun K p a q h => absurd h not_yields_throw
  | succ depth ih =>
    cases call with
    | resolve element t scope =>
      exact fun K => (Parallel.occurrence fun call hmem => inside hcall call hmem).replays
        fun call => ih
    | define element t scope => exact fun K => replays_defined (plain _ hcall)

end Pass

end Schemata
