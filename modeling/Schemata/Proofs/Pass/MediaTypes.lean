import Schemata.Proofs.Pass.Confinement
import Schemata.Proofs.Pass.Lockstep
import Schemata.Proofs.Pass.References
import Schemata.Proofs.Pass.Refusals

/-!
# Media types and interned definitions

Streams inside of a definition become arrays or not by the media types of the request that builds
it.  The definition is kept under a name that tells the type and the view and not the media types:
a request for others is answered with what was built before.  That makes no difference where both
lists of media types carry streams alike, or where no stream is met.
-/
namespace Schemata

open Pass

/-- A type that is asked for by itself. -/
def Request.ofType (t : TypeRef) (view : Option String) (mediaTypes : List String) : Request where
  type := t
  scope := { mediaTypes := mediaTypes, view := view }

namespace Compiler

variable {c : Compiler} {env : Environment} {element : Option Element} {t : TypeRef}
  {scope : Scope} {p q : Pass}

theorem opened_of_isDefined {subject : String} (h : env.types.isDefined t = true) :
    c.opened env subject element t scope = c.define element t scope := by
  unfold Universe.isDefined at h
  unfold Compiler.opened
  split at h
  · rename_i kind
    rw [kind]
  · rename_i kind
    rw [kind]
  · rename_i kind
    rw [kind]
  · rename_i kind
    simp only [kind, Compiler.collection, h, if_true]
  · cases h

theorem declared_of_isDefined (h : env.types.isDefined t = true) :
    ∃ d, env.types.declOf? t = some d := by
  unfold Universe.isDefined at h
  split at h
  · rename_i d kind
    exact ⟨d, Universe.declOf?_of_kindOf (by rw [kind]; rfl)⟩
  · rename_i d kind
    exact ⟨d, Universe.declOf?_of_kindOf (by rw [kind]; rfl)⟩
  · rename_i d kind
    exact ⟨d, Universe.declOf?_of_kindOf (by rw [kind]; rfl)⟩
  · rename_i d kind
    exact ⟨d, Universe.declOf?_of_kindOf (by rw [kind]; rfl)⟩
  · cases h

/-- A declared type is referred to by the name that it is given, which is known from then on. -/
theorem Defines.known_after {depth : Nat} {found : Option Schema}
    (h : (ofDepth env depth).Defines env element t scope p found q) {d : Decl}
    (declared : env.types.declOf? t = some d) :
    ∃ s name names, found = some s ∧ s.refName? = some name ∧
      p.names.compute env.config env.types (d.nameRequest element t scope) =
        some (.ok (name, names)) ∧
      (∀ {key : String × String} {other : String},
        names.assigned.get? key = some other → q.names.assigned.get? key = some other) ∧
      q.isKnown name = true := by
  cases h with
  | undeclared unknown => cases unknown.symm.trans declared
  | known declared' named known =>
    obtain rfl := Option.some.inj (declared'.symm.trans declared)
    exact ⟨_, _, _, rfl, Schema.refName?_reference _, named, id, known⟩
  | @built d' _ _ _ _ declared' named new built =>
    have body := (frame_grows env).build ((frame_grows env).ofDepth depth) d' t scope
    obtain rfl := Option.some.inj (declared'.symm.trans declared)
    exact ⟨_, _, _, rfl, Decl.refName?_definedReference _ _ _, named,
      fun given => (built.grows body).assigned given, isKnown_withSchema_self _ _ _⟩

end Compiler

namespace Pass

/-- Both lists carry streams, or neither does, or the request meets none. -/
def CarryAlike (env : Environment) (t : TypeRef) (view : Option String)
    (first second : List String) : Prop :=
  second.any env.config.isStreaming = first.any env.config.isStreaming ∨
    ∀ named element s scope, Met env (.ofType t view first) named (.resolve element s scope) →
      (openOccurrence env element s).1.isStream = false

/-- Behind the reference to a type that was asked for under other media types before stands what
is registered for it otherwise. -/
def HonoursMediaTypes (env : Environment) (rs : List Request) (t : TypeRef) (view : Option String)
    (first second : List String) : Prop :=
  ((after env rs).resolve env (.ofType t view first)).1.isOk = true →
    ∀ name name',
      answeredName? ((after env (rs ++ [.ofType t view first])).resolve env
        (.ofType t view second)).1 = some name →
      answeredName? ((after env rs).resolve env (.ofType t view second)).1 = some name' →
        ((after env (rs ++ [.ofType t view first])).resolve env
            (.ofType t view second)).2.registry.get? name =
          ((after env rs).resolve env (.ofType t view second)).2.registry.get? name'

variable {env : Environment} {rs : List Request} {t : TypeRef} {view : Option String}
  {first second : List String} {answer : Option Schema} {p q : Pass}

end Pass

namespace Coupling

/-- Two runs that are one. -/
def single : Coupling := ⟨Eq, fun _ => False⟩

theorem fits_single (env : Environment) : single.Fits env env := fits_refl (fun _ => rfl) env

end Coupling

namespace Pass

variable {env : Environment} {rs : List Request} {t : TypeRef} {view : Option String}
  {first second : List String} {answer : Option Schema} {q : Pass}

/-- Where media types make no difference, a request is answered alike and leaves the same pass. -/
theorem resolve_of_carryAlike (alike : CarryAlike env t view first second) (p : Pass) :
    p.resolve env (.ofType t view second) = p.resolve env (.ofType t view first) := by
  let scopes (s s' : Scope) : Prop :=
    s' = s ∨ (s = ⟨first, view⟩ ∧ s' = ⟨second, view⟩)
  have fits := Coupling.fits_single env
  have pairing : Pairing Coupling.single.like scopes Coupling.single.Steps := by
    refine Coupling.Steps.pairing fits.refl (.inl rfl) ?_
    rintro s s' (rfl | ⟨rfl, rfl⟩) <;> rfl
  have streams {element : Option Element} {t' : TypeRef} {s s' : Scope}
      (met : ∃ named, Met env (.ofType t view first) named (.resolve element t' s))
      (hs : scopes s s') (stream : (openOccurrence env element t').1.isStream = true) :
      s'.mediaTypes.any env.config.isStreaming = s.mediaTypes.any env.config.isStreaming := by
    rcases hs with rfl | ⟨rfl, rfl⟩
    · rfl
    · rcases alike with same | none
      · exact same
      · obtain ⟨named, met⟩ := met
        cases (none named element t' _ met).symm.trans stream
  have calls (depth : Nat) (call : Call)
      (met : ∃ named, Met env (.ofType t view first) named call) :
      call.Pairs scopes Coupling.single.Steps (Compiler.ofDepth env depth)
        (Compiler.ofDepth env depth) :=
    fits.ofDepth pairing (fun call => ∃ named, Met env (.ofType t view first) named call)
      (fun ⟨named, met⟩ call hcall => ⟨named, met.inside hcall⟩)
      (fun ⟨named, met⟩ declared call hcall => met.beyond declared hcall) streams depth met
  have together : Coupling.single.Steps _
      ((Compiler.serving env none t).request env (.ofType t view first))
      ((Compiler.serving env none t).request env (.ofType t view second)) :=
    pairing.request fits.kin rfl rfl (.inr ⟨rfl, rfl⟩) fun call hcall =>
      calls _ call (Met.ofRequest hcall)
  have outcome : Coupling.single.Outcome (p.resolve env (.ofType t view first))
      (p.resolve env (.ofType t view second)) :=
    together.meets ⟨rfl, rfl, List.forall₂_same.mpr fun _ _ => rfl, id⟩
  generalize p.resolve env (.ofType t view first) = out at outcome ⊢
  generalize p.resolve env (.ofType t view second) = out' at outcome ⊢
  cases outcome with
  | agree linked => rw [linked.eq id]
  | part marked => exact False.elim marked

/-- A request without an element is answered with the schema of its type as it stands. -/
theorem yields_ofType {c : Compiler} {mediaTypes : List String} {p : Pass} :
    Yields (c.request env (.ofType t view mediaTypes)) p answer q ↔
      ∃ found, Yields (c.resolve none t ⟨mediaTypes, view⟩) p found q ∧
        found.map Resolved.outer = answer := by
  have request : c.request env (.ofType t view mediaTypes) =
      c.resolve none t ⟨mediaTypes, view⟩ >>= fun found => pure (found.map Resolved.outer) := by
    refine congrArg (c.resolve none t ⟨mediaTypes, view⟩ >>= ·) (funext fun found => ?_)
    cases found <;> rfl
  simp only [request, yields_bind, yields_pure]
  constructor
  · rintro ⟨found, p', resolved, same, rfl⟩
    exact ⟨found, resolved, same⟩
  · rintro ⟨found, resolved, same⟩
    exact ⟨found, q, resolved, same, rfl⟩

/-- A reference stays one, unless it stands for a stream that becomes an array. -/
theorem refName?_wrapped {content : Opened} {mediaTypes : List String} {s : Schema}
    (carried : content.isStream = true → mediaTypes.any env.config.isStreaming = true) :
    (Compiler.wrapped env none ⟨mediaTypes, view⟩ content s).outer.refName? = s.refName? := by
  have inline : (content.isStream && !(mediaTypes.any env.config.isStreaming)) = false := by
    cases stream : content.isStream with
    | false => rfl
    | true =>
      rw [carried stream]
      rfl
  rw [refName?_outer, Compiler.wrapped, Compiler.streamed,
    if_neg (by rw [inline]; exact Bool.false_ne_true), Compiler.refName?_describedBy]

/-- A media list carries what a type is found to be, if that is a stream. -/
def Carries (env : Environment) (t : TypeRef) (mediaTypes : List String) : Prop :=
  (openOccurrence env none t).1.isStream = true → mediaTypes.any env.config.isStreaming = true

/-- After a request, one for other media types is answered with a reference to what is registered
already, and adds nothing but diagnostics.  The first was answered with the same reference, unless
it stands for a stream that becomes an array. -/
theorem interned_resolve
    (answered : (after env rs).resolve env (.ofType t view first) = (.ok answer, q))
    (defined : env.types.isDefined (openOccurrence env none t).1.type = true)
    (carried : Carries env t second) :
    ∃ again name s ds, q.resolve env (.ofType t view second) =
        (.ok (some again), q.withDiagnostics ds) ∧
      again.refName? = some name ∧ q.registry.get? name = some s ∧
      (Carries env t first → answer.bind Schema.refName? = some name) := by
  -- The first request defined the type, or found it defined.
  obtain ⟨d, declared⟩ := Compiler.declared_of_isDefined defined
  obtain ⟨found, resolved, rfl⟩ := yields_ofType.mp answered
  obtain ⟨depth, hdepth, occurs⟩ := Compiler.yields_resolve_ofDepth resolved
  obtain ⟨given, opens, rfl⟩ := Compiler.yields_occurrence.mp occurs
  rw [Compiler.opened_of_isDefined defined] at opens
  obtain ⟨inner, rfl, defines⟩ := Compiler.yields_define_ofDepth opens
  obtain ⟨s, name, names, rfl, href, named, kept, known⟩ := defines.known_after declared
  have idle : q.registry.inProgress = [] := by
    have grows := (frame_grows env).resolve (after env rs) (.ofType t view first)
    rw [answered] at grows
    rw [grows.inProgress, idle_after]
  have registered : q.registry.contains name = true := by
    simpa [isKnown, Registry.isInProgress, idle] using known
  obtain ⟨definition, hdefinition⟩ := Option.isSome_iff_exists.mp registered
  -- The second computes the same name, which is known by now.
  have again : Yields ((Compiler.ofDepth env inner).defined env none
      (openOccurrence env none t).1.type ⟨second, view⟩)
      (q.withDiagnostics (openOccurrence env none t).2) (some (.reference name)) _ :=
    yields_defined_again declared named kept known
  have resolved' : Yields ((Compiler.serving env none t).resolve none t ⟨second, view⟩) q
      (some (Compiler.wrapped env none ⟨second, view⟩ (openOccurrence env none t).1
        (.reference name))) (q.withDiagnostics (openOccurrence env none t).2) := by
    rw [Compiler.serving, show Budget.depth env none t = inner + 1 + 1 from hdepth]
    refine Compiler.yields_occurrence.mpr ⟨some (.reference name), ?_, rfl⟩
    rw [Compiler.opened_of_isDefined defined]
    exact again
  refine ⟨_, name, definition, _, yields_ofType.mpr ⟨_, resolved', rfl⟩, ?_, hdefinition,
    fun carriedFirst => ?_⟩
  · rw [refName?_wrapped carried, Schema.refName?_reference]
  · exact (refName?_wrapped carriedFirst).trans href

/-- What becomes of a request after one for the same type and view, but for other media types. -/
structure Interned (env : Environment) (rs : List Request) (t : TypeRef) (view : Option String)
    (first second : List String) : Prop where
  /-- It is answered with a reference to what the first one built, and builds nothing. -/
  again : ∃ reference name s ds,
    (after env (rs ++ [.ofType t view first])).resolve env (.ofType t view second) =
        (.ok (some reference), (after env (rs ++ [.ofType t view first])).withDiagnostics ds) ∧
      reference.refName? = some name ∧
      (after env (rs ++ [.ofType t view first])).registry.get? name = some s
  /-- Where media types make no difference, it would have built the same. -/
  honours : CarryAlike env t view first second → HonoursMediaTypes env rs t view first second

/-- A definition is built for the media types of the request that is the first to need it. -/
theorem interned (answered : ((after env rs).resolve env (.ofType t view first)).1.isOk = true)
    (defined : env.types.isDefined (openOccurrence env none t).1.type = true)
    (carried : Carries env t second) : Interned env rs t view first second := by
  obtain ⟨answer, hanswer⟩ := exists_of_isOk answered
  have run : (after env rs).resolve env (.ofType t view first) =
      (.ok answer, after env (rs ++ [.ofType t view first])) := by
    rw [after_snoc]
    exact Prod.ext hanswer rfl
  obtain ⟨reference, name, s, ds, later, href, registered, before⟩ :=
    interned_resolve run defined carried
  refine ⟨⟨reference, name, s, ds, later, href, registered⟩, fun alike _ m n hm hn => ?_⟩
  have fresh := (resolve_of_carryAlike alike (after env rs)).trans run
  rw [later] at hm ⊢
  rw [fresh] at hn ⊢
  have carriedFirst : Carries env t first := by
    intro stream
    rcases alike with same | none
    · exact same ▸ carried stream
    · cases (none _ _ _ _ .asked).symm.trans stream
  obtain rfl : name = m := Option.some.inj (href.symm.trans hm)
  obtain rfl : name = n := Option.some.inj ((before carriedFirst).symm.trans hn)
  rfl

/-! ### A feed -/

/-- A record with a stream of texts. -/
def feeds : Environment where
  types := (Universe.initial .standard).insertAll
    [{ name := "com.acme.Feed", members :=
      [{ name := "events", type := .generic "stream" [.plain "string"] }] }]
  config := {}

def feed : TypeRef := .plain "com.acme.Feed"

/-- Neither of these lists carries streams, so that the feed is built alike for both. -/
theorem interned_feed :
    (((after feeds []).resolve feeds (.ofType feed none [])).1.isOk = true ∧
      feeds.types.isDefined (openOccurrence feeds none feed).1.type = true ∧
      Carries feeds feed ["application/json"]) ∧
    Interned feeds [] feed none [] ["application/json"] ∧
    HonoursMediaTypes feeds [] feed none [] ["application/json"] := by
  have answered : ((after feeds []).resolve feeds (.ofType feed none [])).1.isOk = true := by
    decide +kernel
  have defined : feeds.types.isDefined (openOccurrence feeds none feed).1.type = true := by
    decide +kernel
  have carried : Carries feeds feed ["application/json"] := by
    intro stream
    exact absurd stream (by decide +kernel)
  have built := interned answered defined carried
  exact ⟨⟨answered, defined, carried⟩, built, built.honours (.inl (by decide +kernel))⟩

/-- Once the feed was built for a media type that carries streams, a request for none is referred
to it, and finds a text where it would have built an array. -/
theorem not_honoursMediaTypes_feed :
    ¬ HonoursMediaTypes feeds [] feed none ["text/event-stream"] [] := by
  intro honours
  have same := honours (by decide +kernel) "Feed" "Feed" (by decide +kernel) (by decide +kernel)
  have events := congrArg
    (Option.map fun s => (Assoc.get? s.properties "events").map Schema.isArray) same
  exact absurd events (by decide +kernel)

end Pass

end Schemata
