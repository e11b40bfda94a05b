import Schemata.Proofs.Pass.Decoration
import Schemata.Proofs.Pass.Outcome
import Schemata.Proofs.TypeRef.RoundTrip
import Schemata.Proofs.Universe.Keys
import Schemata.Proofs.Universe.Scope

/-!
# Transparent substitution

A directive or the configuration may put another type in the place of one.  What a directive names
is opened as if it stood there.  What the configuration names comes in after everything is opened,
so that it has to be a declared type which is no wrapper.  Neither takes an array or a wildcard.
-/
namespace Schemata

open Pass

/-! ### Elements without a schema directive -/

namespace Element

/-- The element without its schema directive. -/
def unstated (e : Element) : Element :=
  { e with directives := e.directives.filter (·.1 ≠ .schema) }

variable (e : Element)

theorem directive?_unstated {kind : DirectiveKind} (other : kind ≠ .schema) :
    e.unstated.directive? kind = e.directive? kind :=
  Assoc.get?_filter fun _ => decide_eq_true other

theorem directive?_unstated_schema : e.unstated.directive? .schema = none := by
  cases stated : e.unstated.directive? .schema with
  | none => rfl
  | some d =>
    have kept := (List.mem_filter.mp (Assoc.mem_of_get? stated)).2
    simp at kept

end Element

/-! ### Programs -/

namespace Pass

variable {α β : Type}

theorem ext_run {m m' : PassM α} (h : ∀ p, m.run.run p = m'.run.run p) : m = m' := funext h

theorem report_nil : report [] = pure () := by
  refine ext_run fun p => ?_
  rw [run_report, List.append_nil]
  rfl

end Pass

namespace Compiler

variable {env : Environment} {depth : Nat} {element : Option Element} {t : TypeRef} {scope : Scope}

/-- Definitions and descriptions do not depend on the schema directive of an element. -/
theorem define_unstated :
    (ofDepth env depth).define (element.map Element.unstated) t scope =
      (ofDepth env depth).define element t scope := by
  cases depth with
  | zero => rfl
  | succ depth =>
    change (ofDepth env depth).defined env _ t scope = (ofDepth env depth).defined env _ t scope
    have names (d : Decl) : d.nameRequest (element.map Element.unstated) t scope =
        d.nameRequest element t scope := by
      have stereotype : (element.map Element.unstated).bind (·.directive? .stereotype) =
          element.bind (·.directive? .stereotype) := by
        cases element with
        | none => rfl
        | some e => exact e.directive?_unstated (by decide)
      rw [Decl.nameRequest, Decl.stereotype?, stereotype]
      rfl
    simp only [Compiler.defined, names]

theorem opened_unstated {subject : String} :
    (ofDepth env depth).opened env subject (element.map Element.unstated) t scope =
      (ofDepth env depth).opened env subject element t scope := by
  unfold Compiler.opened Compiler.collection
  simp only [define_unstated]

/-- Only what has no schema is named together with a subject. -/
theorem opened_of_isRepresented {c : Compiler} (h : env.types.isRepresented t = true)
    (subject other : String) :
    c.opened env subject element t scope = c.opened env other element t scope := by
  unfold Universe.isRepresented at h
  unfold Compiler.opened
  cases kind : env.types.kindOf t <;> first | rfl | (rw [kind] at h; cases h)

/-- What has no schema is reported, and nothing comes of it. -/
theorem opened_of_not_isRepresented {c : Compiler} (h : env.types.isRepresented t = false)
    (subject : String) : c.opened env subject element t scope =
      report [.undeclared env.types subject t] >>= fun _ => pure none := by
  unfold Universe.isRepresented at h
  unfold Compiler.opened
  cases kind : env.types.kindOf t <;> first | rfl | (rw [kind] at h; cases h)

theorem describedBy_unstated (s : Schema) :
    describedBy (element.map Element.unstated) s = describedBy element s := by
  cases element <;> rfl

end Compiler

/-! ### Stages of opening -/

/-- An occurrence with its override, its wrappers, wildcards and parameters opened, before the
configuration is asked. -/
def peeled (env : Environment) (element : Option Element) (t : TypeRef) : Opened × Diagnostics :=
  let subject := subjectOf element t
  let (t, first) := overridden env.types subject (element.bind (·.directive? .schema)) t
  let (content, second) := t.opened env.types subject
  (content, first ++ second)

/-- What an occurrence notes of its own: what comes up while it is opened, and that it is opened to
nothing that has a schema. -/
def ownNotes (env : Environment) (element : Option Element) (t : TypeRef) : Diagnostics :=
  (openOccurrence env element t).2 ++
    if env.types.isRepresented (openOccurrence env element t).1.type then []
    else [.undeclared env.types (subjectOf element t) (openOccurrence env element t).1.type]

/-- What is resolved inside of what was opened around it. -/
def Resolved.inside (env : Environment) (scope : Scope) (around : Opened) (r : Resolved) :
    Resolved :=
  ⟨Compiler.streamed env.config scope around.isStream r.schema, around.nullable || r.nullable⟩

section

variable {env : Environment} {element : Option Element} {t r : TypeRef} {text : String}

theorem openOccurrence_eq (env : Environment) (element : Option Element) (t : TypeRef) :
    openOccurrence env element t =
      ({ (peeled env element t).1 with
          type := (replaced env (subjectOf element t) (peeled env element t).1.type).1 },
        (peeled env element t).2 ++
          (replaced env (subjectOf element t) (peeled env element t).1.type).2) := rfl

theorem openOccurrence_eq_of_replaced {other : TypeRef} {ds : Diagnostics}
    (h : replaced env (subjectOf element t) (peeled env element t).1.type = (other, ds)) :
    openOccurrence env element t =
      ({ (peeled env element t).1 with type := other }, (peeled env element t).2 ++ ds) := by
  rw [openOccurrence_eq, h]

theorem declaredType?_eq_some {u : Universe} (read : TypeRef.parse? text = some r)
    (known : r.isKnownIn u = true) (named : r.name?.isSome = true) :
    u.declaredType? text = some r := by
  refine Option.filter_eq_some_iff.mpr ⟨read, ?_⟩
  obtain ⟨name, hname⟩ := Option.isSome_iff_exists.mp named
  have contained := (TypeRef.isKnownIn_iff.mp known).1
  rw [hname] at contained
  rw [Universe.declOf?, hname]
  exact contained

theorem declaredType?_eq_none {u : Universe} (read : TypeRef.parse? text = some r)
    (unnamed : r.name? = none) : u.declaredType? text = none := by
  rw [Universe.declaredType?, read, Option.filter_eq_none_iff]
  rintro other same
  obtain rfl := Option.some.inj same
  simp [Universe.declOf?, unnamed]

theorem replaced_of_declared (subject : String) (entry : replacementText? env.config t = some text)
    (declared : env.types.declaredType? text = some r) :
    replaced env subject t = (env.types.carryBindings r t, []) := by
  rw [replaced, entry]
  simp only [declared]

theorem exists_of_undeclared (subject : String) (entry : replacementText? env.config t = some text)
    (missing : env.types.declaredType? text = none) :
    ∃ message, replaced env subject t = (t, [⟨subject, .customSchemaNotFound, message, []⟩]) := by
  rw [replaced, entry]
  simp only [missing]
  exact ⟨_, rfl⟩

/-- A substitute that takes over bindings is of the same declaration. -/
theorem kindOf_carryBindings {u : Universe} (keyed : u.Keyed) (target replaced : TypeRef) :
    u.kindOf (u.carryBindings target replaced) = u.kindOf target := by
  unfold Universe.carryBindings
  split
  · rfl
  · rename_i d declared
    split
    · rfl
    · obtain ⟨name, hname, hget⟩ := Option.bind_eq_some_iff.mp declared
      have own : u.declOf? (.generic d.name (d.params.map fun p =>
          ((u.bindings replaced).get? p.name).getD p.fallback)) = some d := by
        rw [keyed name d hget]
        exact hget
      rw [Universe.kindOf_of_declOf? own, Universe.kindOf_of_declOf? declared]

theorem name?_carryBindings {u : Universe} {target : TypeRef} (replaced : TypeRef)
    (named : target.name?.isSome = true) :
    (u.carryBindings target replaced).name?.isSome = true := by
  unfold Universe.carryBindings
  split
  · exact named
  · split
    · exact named
    · rfl

theorem isRepresented_of_declared {u : Universe} {d : Decl} (declared : u.declOf? r = some d)
    (noWrapper : u.wrapperOf? r = none) : u.isRepresented r = true := by
  rw [Universe.isRepresented, Universe.kindOf_of_declOf? declared]
  rw [Universe.wrapperOf?, Universe.kindOf_of_declOf? declared] at noWrapper
  unfold Universe.kindOfDecl at noWrapper ⊢
  cases kind : d.kind <;> first | rfl | (rw [kind] at noWrapper; cases noWrapper)

/-- What is named and no wrapper is opened to itself. -/
theorem openOccurrence_of_declared {e : Option Element}
    (unstated : e.bind (·.directive? .schema) = none)
    (noWrapper : env.types.wrapperOf? r = none) (named : r.name?.isSome = true)
    (alone : replacementText? env.config r = none) :
    openOccurrence env e r = ({ type := r }, []) := by
  have content : TypeRef.opened env.types (subjectOf e r) r = ({ type := r }, []) := by
    cases r with
    | named name args directives => simp only [TypeRef.opened, noWrapper]
    | _ => cases named
  have kept : replaced env (subjectOf e r) r = (r, []) := by rw [replaced, alone]
  simp only [openOccurrence, unstated, overridden, content, kept, List.append_nil]

/-! ### What is noted -/

theorem code_of_peeled : ∀ d ∈ (peeled env element t).2,
    d.code = .unknownImplementation ∨ d.code = .unresolvedPlaceholder := by
  intro d hd
  rcases List.mem_append.mp hd with first | second
  · refine .inl ?_
    change d ∈ (overridden env.types (subjectOf element t)
      (element.bind (·.directive? .schema)) t).2 at first
    unfold overridden at first
    split at first
    · cases first
    · split at first
      · split at first
        · cases first
        · rw [List.mem_singleton.mp first]
      · split at first <;> cases first
  · exact .inr (code_of_opened _ _ _ d second)

end

/-! ### The table of the configuration -/

/-- A substitute from the table stands in for what it replaces: the occurrence comes to what one of
the substitute comes to inside of what was opened around it, and nothing is said to be missing. -/
structure StandsIn (env : Environment) (depth : Nat) (scope : Scope) (element : Option Element)
    (t substitute : TypeRef) : Prop where
  same : (Compiler.ofDepth env depth).occurrence env element t scope = (do
    report (peeled env element t).2
    let found ← (Compiler.ofDepth env depth).occurrence env (element.map Element.unstated)
      substitute scope
    pure (found.map (Resolved.inside env scope (peeled env element t).1)))
  silent : ∀ d ∈ ownNotes env element t,
    d.code ≠ .customSchemaNotFound ∧ d.code ≠ .unknownType

section

variable {env : Environment} {depth : Nat} {scope : Scope} {element : Option Element}
  {t r : TypeRef} {text : String}

/-- A declared type that is no wrapper is looked at where the type was that it replaces. -/
theorem standsIn_of_declared (keyed : env.types.Keyed) (read : TypeRef.parse? text = some r)
    (known : r.isKnownIn env.types = true)
    (entry : replacementText? env.config (peeled env element t).1.type = some text)
    (alone : replacementText? env.config
      (env.types.carryBindings r (peeled env element t).1.type) = none)
    (named : r.name?.isSome = true) (noWrapper : env.types.wrapperOf? r = none) :
    StandsIn env depth scope element t
      (env.types.carryBindings r (peeled env element t).1.type) := by
  have declared := declaredType?_eq_some read known named
  have put := replaced_of_declared (subjectOf element t) entry declared
  have opens := openOccurrence_eq_of_replaced put
  have kind := kindOf_carryBindings keyed r (peeled env element t).1.type
  have named' := name?_carryBindings (u := env.types) (peeled env element t).1.type named
  rw [List.append_nil] at opens
  generalize env.types.carryBindings r (peeled env element t).1.type = target at *
  obtain ⟨d, hd⟩ := Option.isSome_iff_exists.mp (Option.filter_eq_some_iff.mp declared).2
  have represented : env.types.isRepresented target = true := by
    rw [Universe.isRepresented, kind]
    exact isRepresented_of_declared hd noWrapper
  have unstated : (element.map Element.unstated).bind (·.directive? .schema) = none := by
    cases element with
    | none => rfl
    | some e => exact e.directive?_unstated_schema
  have opens' := openOccurrence_of_declared unstated
    (by rw [Universe.wrapperOf?, kind]; exact noWrapper) named' alone
  refine ⟨?_, fun noted hnoted => ?_⟩
  · have inside (s : Schema) : Resolved.inside env scope (peeled env element t).1
        (Compiler.wrapped env (element.map Element.unstated) scope { type := target } s) =
          Compiler.wrapped env element scope { (peeled env element t).1 with type := target }
            s := by
      simp only [Resolved.inside, Compiler.wrapped, Compiler.describedBy_unstated, Bool.or_false]
      rfl
    simp only [Compiler.occurrence, opens, opens', noting, report_nil, bind_assoc, pure_bind,
      Compiler.opened_unstated, Option.map_map]
    rw [Compiler.opened_of_isRepresented represented (subjectOf element t)
      (subjectOf (element.map Element.unstated) target)]
    refine congrArg _ (funext fun _ => congrArg _ (funext fun found => congrArg pure ?_))
    exact congrArg (Option.map · found) (funext fun s => (inside s).symm)
  · rw [ownNotes, opens, if_pos represented, List.append_nil] at hnoted
    rcases code_of_peeled noted hnoted with code | code <;> rw [code] <;> decide

/-- What the table names is looked at as it is, so it must be declared and no wrapper. -/
theorem standsIn_iff (keyed : env.types.Keyed) (read : TypeRef.parse? text = some r)
    (known : r.isKnownIn env.types = true)
    (entry : replacementText? env.config (peeled env element t).1.type = some text)
    (alone : replacementText? env.config
      (env.types.carryBindings r (peeled env element t).1.type) = none) :
    StandsIn env depth scope element t
        (env.types.carryBindings r (peeled env element t).1.type) ↔
      r.name?.isSome = true ∧ env.types.wrapperOf? r = none := by
  refine ⟨fun stands => ?_, fun ⟨named, noWrapper⟩ =>
    standsIn_of_declared keyed read known entry alone named noWrapper⟩
  have silent := stands.silent
  cases name : r.name? with
  | none =>
    obtain ⟨message, refused⟩ := exists_of_undeclared (subjectOf element t) entry
      (declaredType?_eq_none read name)
    rw [ownNotes, openOccurrence_eq_of_replaced refused] at silent
    have noted := (silent _ (List.mem_append_left _ (List.mem_append_right _
      (List.mem_singleton_self _)))).1
    exact absurd rfl noted
  | some _ =>
    have named : r.name?.isSome = true := by rw [name]; rfl
    refine ⟨rfl, ?_⟩
    have put := replaced_of_declared (subjectOf element t) entry
      (declaredType?_eq_some read known named)
    have kind := kindOf_carryBindings keyed r (peeled env element t).1.type
    rw [ownNotes, openOccurrence_eq_of_replaced put] at silent
    generalize env.types.carryBindings r (peeled env element t).1.type = target at *
    by_contra wrapper
    have unrepresented : env.types.isRepresented target = false := by
      unfold Universe.wrapperOf? at wrapper
      unfold Universe.isRepresented
      rw [kind]
      split at wrapper
      · rename_i hkind
        rw [hkind]
      · exact absurd rfl wrapper
    rw [unrepresented] at silent
    have noted := (silent _ (List.mem_append_right _ (List.mem_singleton_self _))).2
    exact absurd rfl noted

end

/-! ### Implementations -/

/-- A type that a directive names stands in for the type of its element: the occurrence comes to
what one of that type comes to, and nothing is said of the directive. -/
structure Implements (env : Environment) (depth : Nat) (scope : Scope) (e : Element)
    (t implementation : TypeRef) : Prop where
  same : (Compiler.ofDepth env depth).occurrence env (some e) t scope =
    (Compiler.ofDepth env depth).occurrence env (some e.unstated) implementation scope
  silent : ∀ d ∈ ownNotes env (some e) t, d.code ≠ .unknownImplementation

section

variable {env : Environment} {depth : Nat} {scope : Scope} {e : Element} {d : Directive}
  {t r : TypeRef} {text : String}

theorem peeled_of_implementation (stated : e.directive? .schema = some d)
    (names : d.text? "implementation" = some text)
    (declared : env.types.declaredType? text = some r) :
    peeled env (some e) t = peeled env (some e.unstated) r := by
  have put : overridden env.types (subjectOf (some e) t)
      ((some e).bind (·.directive? .schema)) t = (r, []) := by
    rw [Option.bind_some, stated, overridden]
    simp only [names, declared]
  have kept : overridden env.types (subjectOf (some e.unstated) r)
      ((some e.unstated).bind (·.directive? .schema)) r = (r, []) := by
    rw [Option.bind_some, e.directive?_unstated_schema, overridden]
  simp only [peeled, put, kept]
  rfl

/-- Without an override no implementation is missed. -/
theorem code_of_unstated : ∀ d ∈ ownNotes env (some e.unstated) t,
    d.code ≠ .unknownImplementation := by
  intro d hd
  rw [ownNotes, openOccurrence_eq] at hd
  rcases List.mem_append.mp hd with opening | missing
  · rcases List.mem_append.mp opening with content | table
    · have kept : overridden env.types (subjectOf (some e.unstated) t)
          ((some e.unstated).bind (·.directive? .schema)) t = (t, []) := by
        rw [Option.bind_some, e.directive?_unstated_schema, overridden]
      simp only [peeled, kept, List.nil_append] at content
      rw [code_of_opened _ _ _ d content]
      decide
    · unfold replaced at table
      split at table
      · cases table
      · split at table
        · cases table
        · rw [List.mem_singleton.mp table]
          exact fun same => by cases same
  · split at missing
    · cases missing
    · rw [List.mem_singleton.mp missing]
      exact fun same => by cases same

/-- What a directive names is opened in the place of the type, if it is a declared type. -/
theorem implements_iff (read : TypeRef.parse? text = some r) (known : r.isKnownIn env.types = true)
    (stated : e.directive? .schema = some d) (names : d.text? "implementation" = some text) :
    Implements env depth scope e t r ↔ r.name?.isSome = true := by
  constructor
  · intro implemented
    by_contra unnamed
    have missing := declaredType?_eq_none (u := env.types) read (by simpa using unnamed)
    obtain ⟨message, hint, refused⟩ : ∃ message hint, overridden env.types (subjectOf (some e) t)
        ((some e).bind (·.directive? .schema)) t =
          (t, [⟨subjectOf (some e) t, .unknownImplementation, message, hint⟩]) := by
      rw [Option.bind_some, stated, overridden]
      simp only [names, missing]
      exact ⟨_, _, rfl⟩
    refine implemented.silent ⟨subjectOf (some e) t, .unknownImplementation, message, hint⟩ ?_ rfl
    rw [ownNotes, openOccurrence_eq]
    refine List.mem_append_left _ (List.mem_append_left _ (List.mem_append_left _ ?_))
    change _ ∈ (overridden env.types (subjectOf (some e) t)
      ((some e).bind (·.directive? .schema)) t).2
    rw [refused]
    exact List.mem_singleton_self _
  · intro named
    have opens : openOccurrence env (some e) t = openOccurrence env (some e.unstated) r := by
      rw [openOccurrence_eq, openOccurrence_eq,
        peeled_of_implementation stated names (declaredType?_eq_some read known named)]
      rfl
    refine ⟨?_, ?_⟩
    · have unstated (subject : String) (u : TypeRef) :=
        @Compiler.opened_unstated env depth (some e) u scope subject
      simp only [Compiler.occurrence, opens, Option.map_some] at unstated ⊢
      simp only [unstated]
      rfl
    · have same : ownNotes env (some e) t = ownNotes env (some e.unstated) r := by
        rw [ownNotes, ownNotes, opens]
        rfl
      rw [same]
      exact code_of_unstated

end

/-! ### Both ways to substitute -/

/-- For a text that is read as a type all of whose names are declared: an entry of the table is
transparent exactly if the type is named and no wrapper, and an implementation exactly if it is
named. -/
theorem substitution_transparent_iff {env : Environment} (keyed : env.types.Keyed) {text : String}
    {r : TypeRef} (read : TypeRef.parse? text = some r) (known : r.isKnownIn env.types = true)
    (depth : Nat) (scope : Scope) :
    (∀ element t, replacementText? env.config (peeled env element t).1.type = some text →
      replacementText? env.config
        (env.types.carryBindings r (peeled env element t).1.type) = none →
      (StandsIn env depth scope element t
          (env.types.carryBindings r (peeled env element t).1.type) ↔
        r.name?.isSome = true ∧ env.types.wrapperOf? r = none)) ∧
    ∀ e d t, e.directive? .schema = some d → d.text? "implementation" = some text →
      (Implements env depth scope e t r ↔ r.name?.isSome = true) :=
  ⟨fun _ _ entry alone => standsIn_iff keyed read known entry alone,
    fun _ _ _ stated names => implements_iff read known stated names⟩

theorem parse?_of_display {text : String} {t : TypeRef} (textual : t.isTextual = true)
    (written : t.display = text) : TypeRef.parse? text = some t := by
  rw [TypeRef.parse?_eq_some_iff, ← written]
  exact TypeRef.parse_display textual

/-- A price is written as something else. -/
def pricedAs (replacement : String) : Environment where
  types := (Universe.initial .standard).insertAll
    [{ name := "com.acme.Price" },
      { name := "com.acme.Money", members := [{ name := "amount", type := .plain "long" }] }]
  config := { customSchemas := [⟨"com.acme.Price", replacement⟩] }

/-- An amount of money is no wrapper. -/
theorem substitution_transparent_iff_money :
    TypeRef.parse? "com.acme.Money" = some (.plain "com.acme.Money") ∧
      (TypeRef.plain "com.acme.Money").isKnownIn (pricedAs "com.acme.Money").types = true ∧
      (StandsIn (pricedAs "com.acme.Money") 3 {} none (.plain "com.acme.Price")
          (.plain "com.acme.Money") ↔
        (TypeRef.plain "com.acme.Money").name?.isSome = true ∧
          (pricedAs "com.acme.Money").types.wrapperOf? (.plain "com.acme.Money") = none) := by
  have keyed : (pricedAs "com.acme.Money").types.Keyed := Universe.keyed_insertAll _ _
  have read : TypeRef.parse? "com.acme.Money" = some (.plain "com.acme.Money") :=
    parse?_of_display (by decide) (by decide)
  have known : (TypeRef.plain "com.acme.Money").isKnownIn (pricedAs "com.acme.Money").types =
      true := by
    decide +kernel
  have transparent := (substitution_transparent_iff keyed read known 3 {}).1 none
    (.plain "com.acme.Price") (by decide +kernel) (by decide +kernel)
  exact ⟨read, known, transparent⟩

/-- Whatever is put in the place of a type, it is as if that had been written there. -/
def SubstitutesTransparently (env : Environment) : Prop :=
  ∀ depth scope text r, TypeRef.parse? text = some r → r.isKnownIn env.types = true →
    (∀ element t, replacementText? env.config (peeled env element t).1.type = some text →
      replacementText? env.config
        (env.types.carryBindings r (peeled env element t).1.type) = none →
      StandsIn env depth scope element t
        (env.types.carryBindings r (peeled env element t).1.type)) ∧
    ∀ e d t, e.directive? .schema = some d → d.text? "implementation" = some text →
      Implements env depth scope e t r

/-- A wrapper is said not to be declared. -/
theorem not_substitutesTransparently_optional :
    ¬ SubstitutesTransparently (pricedAs "optional<com.acme.Money>") := by
  intro transparent
  have read : TypeRef.parse? "optional<com.acme.Money>" =
      some (.generic "optional" [.plain "com.acme.Money"]) :=
    parse?_of_display (by decide) (by decide)
  have stands := (transparent 3 {} _ _ read (by decide +kernel)).1 none (.plain "com.acme.Price")
    (by decide +kernel) (by decide +kernel)
  have noted : (ownNotes (pricedAs "optional<com.acme.Money>") none (.plain "com.acme.Price")).any
      (fun d => d.code == .unknownType) = true := by
    decide +kernel
  obtain ⟨d, hd, code⟩ := List.any_eq_true.mp noted
  exact (stands.silent d hd).2 (beq_iff_eq.mp code)

end Schemata
