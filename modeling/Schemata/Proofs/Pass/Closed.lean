import Schemata.Proofs.Pass.Contents
import Schemata.Proofs.Pass.Omission
import Schemata.Proofs.Universe.Scope

/-!
# Closed universes

In a closed universe without schema directives every type that a request leads to mentions
declared types only: members and ancestors are substituted by arguments and by bounds that do, and
what is opened has a schema or leads to one.  So no type is reported as not declared, and every
request that is answered has a schema.
-/
namespace Schemata

open Pass

/-- Whether all types that the directives of the element bring in mention declared types only. -/
def Element.isKnownIn (u : Universe) (e : Element) : Bool :=
  (((e.directive? .schema).bind (Directive.text? · "implementation")).toList
    ++ e.directives.typeNames).all fun text => (TypeRef.parse? text).all (TypeRef.isKnownIn u)

/-- Whether the type of the request, and those that its element brings in, mention declared types
only. -/
def Request.isKnownIn (u : Universe) (r : Request) : Bool :=
  r.type.isKnownIn u && r.element.all (Element.isKnownIn u)

/-- The call is for a type that mentions declared types only; a definition is for one of them. -/
def Call.IsClosed (u : Universe) : Call → Prop
  | .resolve element t _ =>
    t.isKnownIn u = true ∧ ∀ e, element = some e → e.isKnownIn u = true
  | .define _ t _ => t.isKnownIn u = true ∧ ∃ d, u.declOf? t = some d

/-- A declared type that is no wrapper has a schema or leads to one. -/
theorem Universe.isRepresented_of_wrapperOf? {u : Universe} {name : String} {args : List TypeRef}
    {directives : Directives} (declared : u.contains name = true)
    (plain : u.wrapperOf? (.named name args directives) = none) :
    u.isRepresented (.named name args directives) = true := by
  obtain ⟨d, hget⟩ : ∃ d, u.get? name = some d := Option.isSome_iff_exists.mp declared
  simp only [wrapperOf?, isRepresented, kindOf, hget, kindOfDecl] at plain ⊢
  cases hkind : d.kind <;> simp_all

namespace Call

variable {u : Universe} {element : Option Element} {t : TypeRef} {scope : Scope}

theorem isClosed_of_kindOf {d : Decl} (h : t.isKnownIn u = true)
    (kind : (u.kindOf t).decl? = some d) : (define element t scope).IsClosed u :=
  ⟨h, d, Universe.declOf?_of_kindOf kind⟩

theorem isClosed_resolve (h : t.isKnownIn u = true) : (resolve none t scope).IsClosed u :=
  ⟨h, fun _ he => by cases he⟩

theorem isClosed_ofRequest {r : Request} (h : r.isKnownIn u = true) :
    ∀ call ∈ ofRequest r, call.IsClosed u := by
  obtain ⟨type, element⟩ := Bool.and_eq_true_iff.mp h
  have known (e : Element) (he : r.element = some e) : e.isKnownIn u = true := by
    simpa [he] using element
  intro call hcall
  rcases mem_ofRequest hcall with rfl | ⟨e, same, named⟩
  · exact ⟨type, known⟩
  · obtain ⟨text, htext, t, parsed, rfl⟩ := mem_named named
    have texts := List.all_eq_true.mp (known e same) text (List.mem_append_right _ htext)
    exact isClosed_resolve (by simpa [parsed] using texts)

end Call

/-- A member without schema directives brings in nothing but its type. -/
theorem Decl.typeNames_of_isUndirected {d : Decl} (plain : d.isUndirected = true) {m : Member}
    (hm : m ∈ d.members) : m.directives.typeNames = [] := by
  simp only [Decl.isUndirected, Bool.and_eq_true, List.all_eq_true, Option.isNone_iff_eq_none]
    at plain
  obtain ⟨schema, array⟩ := plain.2 m hm
  simp [Directives.typeNames, schema, array]

theorem Decl.isKnownIn_ofMember {u : Universe} {d : Decl} (plain : d.isUndirected = true)
    {m : Member} (hm : m ∈ d.members) : (Element.ofMember d m).isKnownIn u = true := by
  have names := typeNames_of_isUndirected plain hm
  simp only [Decl.isUndirected, Bool.and_eq_true, List.all_eq_true, Option.isNone_iff_eq_none]
    at plain
  have schema : (Element.ofMember d m).directive? .schema = none := (plain.2 m hm).1
  have names' : (Element.ofMember d m).directives.typeNames = [] := names
  simp [Element.isKnownIn, schema, names']

namespace Universe.Closed

variable {u : Universe} (hu : u.Closed) {config : Config} {element : Option Element} {t : TypeRef}
  {scope : Scope}

/-! ### Opening -/

include hu

theorem isRepresented_object : u.isRepresented .object = true :=
  isRepresented_of_wrapperOf? (hu.value .object) hu.object

theorem opened (subject : String) (h : t.isKnownIn u = true) :
    (t.opened u subject).1.type.isKnownIn u = true ∧
      u.isRepresented (t.opened u subject).1.type = true := by
  refine TypeRef.opened_induction (u := u) (P := fun t s => t.isKnownIn u = true →
    s.isKnownIn u = true ∧ u.isRepresented s = true) ?named ?array ?object ?first subject t h
  case named =>
    exact fun whole h =>
      ⟨h, isRepresented_of_wrapperOf? (TypeRef.contains_of_isKnownIn h) whole⟩
  case array => exact fun _ h => ⟨h, rfl⟩
  case object => exact fun _ _ _ => ⟨hu.isKnownIn_object, hu.isRepresented_object⟩
  case first => exact fun _ part found h => found (TypeRef.isKnownIn_of_mem_parts h part)

theorem isKnownIn_overridden (subject : String)
    (known : ∀ e, element = some e → e.isKnownIn u = true) (h : t.isKnownIn u = true) :
    (overridden u subject (element.bind (·.directive? .schema)) t).1.isKnownIn u = true := by
  generalize same : (overridden u subject (element.bind (·.directive? .schema)) t).1 = s
  rcases overridden_cases u subject element t same with
    rfl | ⟨e, d, text, rfl, schema, named, parsed⟩ | ⟨p, rfl⟩
  · exact h
  · have texts := List.all_eq_true.mp (known e rfl) text (by simp [schema, named])
    simpa [parsed] using texts
  · exact hu.isKnownIn_value p

theorem openOccurrence (custom : config.customSchemas = [])
    (h : (Call.resolve element t scope).IsClosed u) :
    (openOccurrence ⟨u, config⟩ element t).1.type.isKnownIn u = true ∧
      u.isRepresented (Schemata.openOccurrence ⟨u, config⟩ element t).1.type = true := by
  have content := hu.opened (subjectOf element t)
    (hu.isKnownIn_overridden (subjectOf element t) h.2 h.1)
  change (replaced ⟨u, config⟩ _ _).1.isKnownIn u = true ∧
    u.isRepresented (replaced ⟨u, config⟩ _ _).1 = true
  rw [replaced_of_customSchemas custom]
  exact content

/-! ### Calls -/

theorem isClosed_ofMap (h : t.isKnownIn u = true) :
    ∀ call ∈ Call.ofMap u t.args scope, call.IsClosed u := by
  intro call hcall
  obtain ⟨key, rest, hargs, ⟨⟨d, kind⟩, rfl⟩ | ⟨-, rfl⟩⟩ := Call.mem_ofMap hcall
  · exact Call.isClosed_of_kindOf (TypeRef.isKnownIn_of_mem_args h (hargs ▸ List.mem_cons_self))
      (by rw [kind]; rfl)
  · refine Call.isClosed_resolve ?_
    cases rest with
    | nil => exact hu.isKnownIn_object
    | cons value rest =>
      exact TypeRef.isKnownIn_of_mem_args h
        (hargs ▸ List.mem_cons_of_mem _ List.mem_cons_self)

theorem isClosed_ofOpened (h : t.isKnownIn u = true) :
    ∀ call ∈ Call.ofOpened u element t scope, call.IsClosed u := by
  intro call hcall
  rcases Call.mem_ofOpened hcall with
    ⟨item, kind, rfl⟩ | ⟨d, -, inside⟩ | ⟨d, -, item, value, rfl⟩ | ⟨d, kind, rfl⟩
  · exact Call.isClosed_resolve (TypeRef.isKnownIn_of_mem_parts h (mem_parts_of_kindOf kind))
  · exact hu.isClosed_ofMap h call inside
  · exact Call.isClosed_resolve (hu.isKnownIn_bindings h item value)
  · refine Call.isClosed_of_kindOf (d := d) h ?_
    rcases kind with kind | kind | kind | ⟨kind, -⟩ <;> rw [kind] <;> rfl

theorem isClosed_ofDefinition {d : Decl} (declared : u.declOf? t = some d)
    (h : t.isKnownIn u = true) :
    ∀ call ∈ Call.ofDefinition ⟨u, config⟩ d (u.bindings t) scope, call.IsClosed u := by
  obtain ⟨name, -, hget⟩ := Option.bind_eq_some_iff.mp declared
  have bindings := hu.isKnownIn_bindings h
  have plain := hu.undirected hget
  intro call hcall
  rcases Call.mem_ofDefinition hcall with
    ⟨-, -, t, ht, rfl⟩ | ⟨-, m, hm, -, rfl⟩ | ⟨m, hm, named⟩ | named
  · exact ⟨hu.isKnownIn_lineage hget bindings t ht, declOf?_of_mem_lineageFrom ht⟩
  · refine ⟨TypeRef.isKnownIn_substitute bindings (hu.members hget hm), fun e he => ?_⟩
    cases he
    exact Decl.isKnownIn_ofMember plain hm
  · rw [Decl.typeNames_of_isUndirected plain hm] at named
    cases named
  · simp only [Decl.isUndirected, Bool.and_eq_true, Option.isNone_iff_eq_none] at plain
    rw [plain.1] at named
    cases named

end Universe.Closed

namespace Pass

/-! ### Passes over closed universes -/

/-- As long as no type was reported as not declared, none is. -/
def StaysQuiet (p q : Pass) : Prop :=
  (∀ d ∈ p.diagnostics, d.code ≠ .unknownType) → ∀ d ∈ q.diagnostics, d.code ≠ .unknownType

theorem StaysQuiet.note (p : Pass) {ds : Diagnostics} (h : ∀ d ∈ ds, d.code ≠ .unknownType) :
    StaysQuiet p (p.withDiagnostics ds) :=
  fun quiet => List.forall_mem_append.mpr ⟨quiet, h⟩

theorem trail_staysQuiet :
    Trail (fun d => d.code ≠ .unknownType) fun p _ q => StaysQuiet p q where
  advised advice := advice.1
  refl _ := id
  note p _ h := .note p h
  trans first second quiet := second (first quiet)

variable {u : Universe} {config : Config}

/-- A definition in a closed universe finds its declaration, so that only what is nested in it
could report a type. -/
theorem staysQuiet_ends (hu : u.Closed) {c : Compiler} {element : Option Element} {t : TypeRef}
    {scope : Scope} {p q : Pass} {o : Option Stop}
    (hc : ∀ call : Call, call.IsClosed u → call.Takes (fun p _ q => StaysQuiet p q) c)
    (closed : (Call.define element t scope).IsClosed u)
    (ends : c.Ends ⟨u, config⟩ element t scope p o q) : StaysQuiet p q := by
  have inside {d : Decl} (declared : u.declOf? t = some d) :
      Takes (fun p _ q => StaysQuiet p q) (c.build ⟨u, config⟩ d t scope) :=
    trail_staysQuiet.build fun call hcall =>
      hc call (hu.isClosed_ofDefinition declared closed.1 call hcall)
  cases ends with
  | yields answered =>
    cases answered with
    | undeclared unknown =>
      obtain ⟨d, declared⟩ := closed.2
      cases unknown.symm.trans declared
    | known => exact id
    | @built d name names s q' declared _ _ built =>
      have body : StaysQuiet (startName name (p.withNames names)) q' :=
        (inside declared).yields built
      exact body
  | nameless => exact id
  | refused =>
    refine .note p fun d hd => ?_
    rw [List.mem_singleton.mp hd]
    exact nofun
  | @stopped d name names e q' declared _ _ stopped =>
    have body : StaysQuiet (startName name (p.withNames names)) q' :=
      (inside declared).stops stopped
    exact body

theorem staysQuiet_ofDepth (hu : u.Closed) (custom : config.customSchemas = []) (depth : Nat)
    (call : Call) (closed : call.IsClosed u) :
    call.Takes (fun p _ q => StaysQuiet p q) (Compiler.ofDepth ⟨u, config⟩ depth) := by
  refine trail_staysQuiet.ofDepth (Call.IsClosed u) (fun _ => id) (fun h => ?_) (fun h none => ?_)
    (fun hc h => staysQuiet_ends hu hc h) depth closed
  · exact hu.isClosed_ofOpened (hu.openOccurrence custom h).1
  · cases none.symm.trans (hu.openOccurrence custom h).2

theorem staysQuiet_serve (hu : u.Closed) (custom : config.customSchemas = []) (p : Pass)
    {rs : List Request} (asked : ∀ r ∈ rs, r.isKnownIn u = true) :
    StaysQuiet p (p.serve ⟨u, config⟩ rs).2 :=
  trail_staysQuiet.serve (staysQuiet_ofDepth hu custom) fun r hr =>
    Call.isClosed_ofRequest (asked r hr)

/-- A pass that reports no type has a schema for every request that it answers. -/
theorem answer_ne_none {env : Environment} {p : Pass} {rs : List Request}
    (quiet : ∀ d ∈ (p.serve env rs).2.diagnostics, d.code ≠ .unknownType) :
    ∀ a ∈ (p.serve env rs).1, a ≠ .ok none := by
  induction rs generalizing p with
  | nil => exact fun a ha => by cases ha
  | cons r rest ih =>
    refine List.forall_mem_cons.mpr ⟨fun nothing => ?_, ih quiet⟩
    obtain ⟨new, grown, d, hd, code⟩ := reportsUnknown_of_resolve (Prod.ext nothing rfl)
    have later : Grows (p.resolve env r).2 (p.serve env (r :: rest)).2 :=
      (frame_grows env).serve _ rest
    refine quiet d (later.diagnostics.subset ?_) code
    rw [grown]
    exact List.mem_append_right _ hd

/-- Declarations that mention declared types and their own parameters only, the latter not in
bounds, and that have no schema directives, make up a universe in which no type is ever reported
as not declared, and every request that is answered has a schema.  The type of every value must
not be declared to be a wrapper of itself. -/
theorem unknownType_not_reported (n : Normalizer) (ds : List Decl) (config : Config)
    (rs : List Request) {u : Universe} (hu : u = (Universe.initial n).insertAll ds)
    (inScope : ∀ d ∈ ds, d.isScopedIn u = true) (bounded : ∀ d ∈ ds, d.boundsKnownIn u = true)
    (undirected : u.decls.all (fun entry => entry.2.isUndirected) = true)
    (object : u.wrapperOf? .object = none) (custom : config.customSchemas = [])
    (asked : ∀ r ∈ rs, r.isKnownIn u = true) :
    (∀ d ∈ (after ⟨u, config⟩ rs).diagnostics, d.code ≠ .unknownType) ∧
      ∀ a ∈ answers ⟨u, config⟩ rs, a ≠ .ok none := by
  have closed := Universe.closed_insertAll n hu inScope bounded undirected object
  have quiet := staysQuiet_serve closed custom {} asked fun _ h => by cases h
  exact ⟨quiet, answer_ne_none quiet⟩

/-- A box of a second parameter, which is bounded by some types. -/
def boundedBox (bounds : List TypeRef) : Decl :=
  { name := "com.acme.Box", params := [⟨"T", []⟩, ⟨"U", bounds⟩], members :=
    [{ name := "value", type := .plain "U" },
      { name := "others", type := .generic "list" [.plain "T"] }] }

def boundedBoxes (bounds : List TypeRef) : Universe :=
  (Universe.initial .standard).insertAll [boundedBox bounds]

/-- A box without arguments. -/
def boxRequest : Request := { type := .plain "com.acme.Box" }

/-- A bound that mentions declared types only. -/
def listOfTexts : TypeRef := .generic "list" [.plain "string"]

theorem unknownType_not_reported_boundedBox :
    ((boundedBox [listOfTexts]).isScopedIn (boundedBoxes [listOfTexts]) = true ∧
      (boundedBox [listOfTexts]).boundsKnownIn (boundedBoxes [listOfTexts]) = true ∧
      boxRequest.isKnownIn (boundedBoxes [listOfTexts]) = true) ∧
    (∀ d ∈ (after ⟨boundedBoxes [listOfTexts], {}⟩ [boxRequest]).diagnostics,
      d.code ≠ .unknownType) ∧
    ∀ a ∈ answers ⟨boundedBoxes [listOfTexts], {}⟩ [boxRequest], a ≠ .ok none := by
  have inScope : ∀ d ∈ [boundedBox [listOfTexts]],
      d.isScopedIn (boundedBoxes [listOfTexts]) = true := by decide +kernel
  have bounded : ∀ d ∈ [boundedBox [listOfTexts]],
      d.boundsKnownIn (boundedBoxes [listOfTexts]) = true := by decide +kernel
  have undirected : (boundedBoxes [listOfTexts]).decls.all (fun entry => entry.2.isUndirected) =
      true := by decide +kernel
  have object : (boundedBoxes [listOfTexts]).wrapperOf? .object = none := by decide +kernel
  have asked : ∀ r ∈ [boxRequest], r.isKnownIn (boundedBoxes [listOfTexts]) = true := by
    decide +kernel
  exact ⟨⟨inScope _ List.mem_cons_self, bounded _ List.mem_cons_self, asked _ List.mem_cons_self⟩,
    unknownType_not_reported .standard _ {} _ rfl inScope bounded undirected object rfl asked⟩

/-- Whether a pass over declarations that mention declared types and their own parameters only,
and that have no schema directives, never reports a type. -/
def StaysKnown (n : Normalizer) (ds : List Decl) (config : Config) (rs : List Request) : Prop :=
  let u := (Universe.initial n).insertAll ds
  (∀ d ∈ ds, d.isScopedIn u = true) →
    u.decls.all (fun entry => entry.2.isUndirected) = true → config.customSchemas = [] →
      (∀ r ∈ rs, r.isKnownIn u = true) →
        (∀ d ∈ (after ⟨u, config⟩ rs).diagnostics, d.code ≠ .unknownType) ∧
          ∀ a ∈ answers ⟨u, config⟩ rs, a ≠ .ok none

/-- A parameter that is mentioned in a bound is taken for a type, which is not declared. -/
theorem not_staysKnown_boundedBox :
    ¬ StaysKnown .standard [boundedBox [.plain "T"]] {} [boxRequest] := by
  intro known
  have quiet := (known (by decide +kernel) (by decide +kernel) rfl (by decide +kernel)).1
  revert quiet
  decide +kernel

end Pass

end Schemata
