import Schemata.Proofs.Pass.Abandonment

/-!
# Refused requests

The only error that a pass can note is a clash of names, and it stops the request where it is
noted.  Whatever else goes wrong is advice, so that the errors of a pass are its refused
requests, one for one and in their order.
-/
namespace Schemata

open Pass Diagnostics

/-- The clash of names that an answer was refused for. -/
def clash? : Except Stop (Option Schema) → Option DuplicateName
  | .error (.duplicateName e) => some e
  | _ => none

theorem clash?_eq_some {answer : Except Stop (Option Schema)} {e : DuplicateName} :
    clash? answer = some e ↔ answer = .error (.duplicateName e) := by
  cases answer with
  | ok s => simp [clash?]
  | error stop => cases stop <;> simp [clash?]

namespace Diagnostic

/-- The diagnostic is what is noted of a clash. -/
def Blames (d : Diagnostic) (e : DuplicateName) : Prop :=
  ∃ subject, d = duplicateSchemaName subject e

theorem Blames.severity {d : Diagnostic} {e : DuplicateName} (h : d.Blames e) :
    d.severity = .error := by
  obtain ⟨subject, rfl⟩ := h
  rfl

theorem IsAdvice.severity {d : Diagnostic} (h : d.IsAdvice) : d.severity ≠ .error := by
  obtain ⟨-, other⟩ := h
  rw [Diagnostic.severity]
  cases hcode : d.code with
  | duplicateSchemaName => exact absurd hcode other
  | _ => nofun

end Diagnostic

namespace Diagnostics

@[simp] theorem errors_append (ds others : Diagnostics) :
    errors (ds ++ others) = errors ds ++ errors others :=
  List.filter_append ..

theorem errors_eq_nil {ds : Diagnostics} (h : ∀ d ∈ ds, d.severity ≠ .error) : errors ds = [] :=
  List.filter_eq_nil_iff.mpr fun d hd => by simpa using h d hd

theorem hasErrors_iff {ds : Diagnostics} : hasErrors ds = true ↔ errors ds ≠ [] := by
  simp [hasErrors, errors, List.filter_eq_nil_iff]

end Diagnostics

namespace Pass

/-- What a step adds to the errors of a pass: the clash of two origins that it stopped for, or
else nothing. -/
inductive Errs (policy : DuplicatePolicy) (p : Pass) : Option Stop → Pass → Prop where
  | quiet {o : Option Stop} {q : Pass} (unrefused : ∀ e, o ≠ some (.duplicateName e))
      (same : errors q.diagnostics = errors p.diagnostics) : Errs policy p o q
  | clash {e : DuplicateName} {d : Diagnostic} {q : Pass} (strict : policy = .error)
      (held : q.names.originOf? e.name = some e.existing) (apart : e.existing ≠ e.incoming)
      (blames : d.Blames e) (blamed : errors q.diagnostics = errors p.diagnostics ++ [d]) :
      Errs policy p (some (.duplicateName e)) q

variable {policy : DuplicatePolicy} {p q r : Pass} {o : Option Stop}

theorem Errs.of_same (h : errors q.diagnostics = errors p.diagnostics) : Errs policy p none q :=
  .quiet nofun h

/-- A step after one that did not stop. -/
theorem Errs.trans (first : Errs policy p none q) (second : Errs policy q o r) :
    Errs policy p o r := by
  cases first with
  | quiet _ same =>
    cases second with
    | quiet unrefused same' => exact .quiet unrefused (same'.trans same)
    | clash strict held apart blames blamed =>
      rw [same] at blamed
      exact .clash strict held apart blames blamed

theorem trail_errs (policy : DuplicatePolicy) :
    Trail (fun d => d.severity ≠ .error) (Errs policy) where
  advised := Diagnostic.IsAdvice.severity
  refl _ := .of_same rfl
  note p ds harmless := by
    refine .of_same ?_
    rw [withDiagnostics, errors_append, errors_eq_nil harmless, List.append_nil]
  trans := Errs.trans

variable {env : Environment} {element : Option Element} {t : TypeRef} {scope : Scope}

theorem severity_undeclared (u : Universe) (subject : String) (t : TypeRef) :
    (Diagnostic.undeclared u subject t).severity ≠ .error := nofun

/-- A definition errs if its own name clashes or its schema errs. -/
theorem errs_ends {c : Compiler}
    (hc : ∀ call : Call, call.Takes (Errs env.config.naming.duplicates) c)
    (ends : c.Ends env element t scope p o q) : Errs env.config.naming.duplicates p o q := by
  have trail := trail_errs env.config.naming.duplicates
  cases ends with
  | yields answered =>
    cases answered with
    | undeclared =>
      refine trail.note p fun d hd => ?_
      rw [List.mem_singleton.mp hd]
      exact severity_undeclared env.types t.display t
    | known => exact .of_same rfl
    | built _ _ _ built =>
      have body := (trail.build fun call _ => hc call).yields built
      cases body with
      | quiet _ same => exact .of_same same
  | nameless => exact .quiet nofun rfl
  | @refused d e _ clash =>
    obtain ⟨⟨candidate, origin⟩, -, refused⟩ := Option.map_eq_some_iff.mp clash
    obtain ⟨strict, -, rfl, rfl, held, apart⟩ := NameTable.assign_error_iff.mp refused
    exact .clash strict held apart ⟨t.display, rfl⟩ (errors_append _ _)
  | stopped _ _ _ stopped =>
    have body := (trail.build fun call _ => hc call).stops stopped
    cases body with
    | quiet unrefused same => exact .quiet unrefused same
    | clash strict held apart blames blamed => exact .clash strict held apart blames blamed

/-- A request adds the clash that it is refused for to the errors, or nothing. -/
theorem errs_resolve (env : Environment) (p : Pass) (r : Request) :
    (∃ s, (p.resolve env r).1 = .ok s ∧
      Errs env.config.naming.duplicates p none (p.resolve env r).2) ∨
    ∃ stop, (p.resolve env r).1 = .error stop ∧
      Errs env.config.naming.duplicates p (some stop) (p.resolve env r).2 := by
  have trail := trail_errs env.config.naming.duplicates
  have errs : Takes (Errs env.config.naming.duplicates)
      ((Compiler.serving env r.element r.type).request env r) :=
    trail.request fun call _ => trail.ofDepth (fun _ => True)
      (fun _ => .quiet nofun rfl) (fun _ _ _ => trivial)
      (fun _ _ => severity_undeclared env.types _ _)
      (fun hc _ => errs_ends fun call => hc call trivial) _ trivial
  cases hanswer : (p.resolve env r).1 with
  | ok s => exact .inl ⟨s, rfl, errs.yields (Prod.ext hanswer rfl)⟩
  | error stop => exact .inr ⟨stop, rfl, errs.stops (Prod.ext hanswer rfl)⟩

/-- What the errors of a pass have to do with the requests that it served. -/
structure ErrorsAreClashes (env : Environment) (rs : List Request) : Prop where
  /-- A request that comes to an end is answered, or two origins clash in it and the policy is
  strict; the name that they clash for is held by one of them. -/
  stops (qs : List Request) (r : Request) (stop : Stop) : qs ++ [r] <+: rs →
    ((after env qs).resolve env r).1 = .error stop → stop = .endless ∨
      ∃ e, stop = .duplicateName e ∧ env.config.naming.duplicates = .error ∧
        e.existing ≠ e.incoming ∧
        (after env (qs ++ [r])).names.originOf? e.name = some e.existing
  /-- A refused request notes one error, which is its clash, and no other request notes any. -/
  blamed (qs : List Request) (r : Request) : qs ++ [r] <+: rs →
    ∃ new, errors (after env (qs ++ [r])).diagnostics = errors (after env qs).diagnostics ++ new ∧
      List.Forall₂ Diagnostic.Blames new (clash? ((after env qs).resolve env r).1).toList
  /-- The errors are the clashes of the refused requests in their order, -/
  inOrder : List.Forall₂ Diagnostic.Blames (errors (after env rs).diagnostics)
    ((answers env rs).filterMap clash?)
  /-- so that there are as many of them, -/
  count : (errors (after env rs).diagnostics).length =
    (answers env rs).countP fun answer => (clash? answer).isSome
  /-- and there are errors exactly when a request was refused. -/
  hasErrors_iff : hasErrors (after env rs).diagnostics = true ↔
    ∃ e, .error (.duplicateName e) ∈ answers env rs

theorem after_snoc (env : Environment) (qs : List Request) (r : Request) :
    after env (qs ++ [r]) = ((after env qs).resolve env r).2 := by
  rw [after, serve_append]
  rfl

/-- The errors that a request adds, and the clash that it was refused for. -/
theorem blamed_resolve (env : Environment) (p : Pass) (r : Request) :
    ∃ new, errors (p.resolve env r).2.diagnostics = errors p.diagnostics ++ new ∧
      List.Forall₂ Diagnostic.Blames new (clash? (p.resolve env r).1).toList := by
  have quiet {answer : Except Stop (Option Schema)} (unrefused : clash? answer = none)
      (same : errors (p.resolve env r).2.diagnostics = errors p.diagnostics) :
      ∃ new, errors (p.resolve env r).2.diagnostics = errors p.diagnostics ++ new ∧
        List.Forall₂ Diagnostic.Blames new (clash? answer).toList :=
    ⟨[], by rw [same, List.append_nil], by rw [unrefused]; exact .nil⟩
  obtain ⟨s, hanswer, errs⟩ | ⟨stop, hanswer, errs⟩ := errs_resolve env p r
  · rw [hanswer]
    cases errs with
    | quiet _ same => exact quiet rfl same
  · rw [hanswer]
    cases errs with
    | quiet unrefused same =>
      refine quiet ?_ same
      cases stop with
      | duplicateName e => exact absurd rfl (unrefused e)
      | endless => rfl
    | clash _ _ _ blames blamed => exact ⟨_, blamed, .cons blames .nil⟩

/-- The errors that a sequence of requests adds. -/
theorem blamed_serve (env : Environment) (p : Pass) (rs : List Request) :
    ∃ new, errors (p.serve env rs).2.diagnostics = errors p.diagnostics ++ new ∧
      List.Forall₂ Diagnostic.Blames new ((p.serve env rs).1.filterMap clash?) := by
  induction rs generalizing p with
  | nil => exact ⟨[], (List.append_nil _).symm, .nil⟩
  | cons r rest ih =>
    obtain ⟨first, hfirst, blames⟩ := blamed_resolve env p r
    obtain ⟨later, hlater, blames'⟩ := ih (p.resolve env r).2
    refine ⟨first ++ later, ?_, ?_⟩
    · rw [← List.append_assoc, ← hfirst]
      exact hlater
    · have split : (p.serve env (r :: rest)).1.filterMap clash? =
          (clash? (p.resolve env r).1).toList ++
            ((p.resolve env r).2.serve env rest).1.filterMap clash? := by
        change ((p.resolve env r).1 :: _).filterMap clash? = _
        cases hclash : clash? (p.resolve env r).1 with
        | none => rw [List.filterMap_cons_none hclash]; rfl
        | some e => rw [List.filterMap_cons_some hclash]; rfl
      rw [split]
      exact List.rel_append blames blames'

/-- The errors of a pass are the requests that it refused, and it refuses a request only where
the policy is strict and two origins ask for one name. -/
theorem errors_are_clashes (env : Environment) (rs : List Request) : ErrorsAreClashes env rs := by
  obtain ⟨new, errors_eq, blames⟩ := blamed_serve env {} rs
  rw [show errors ({} : Pass).diagnostics = [] from rfl, List.nil_append] at errors_eq
  rw [← errors_eq] at blames
  refine ⟨fun qs r stop _ stopped => ?stops, fun qs r _ => ?blamed, blames, ?count, ?any⟩
  case stops =>
    obtain ⟨s, hanswer, -⟩ | ⟨stop', hanswer, errs⟩ := errs_resolve env (after env qs) r
    · cases stopped.symm.trans hanswer
    · cases stopped.symm.trans hanswer
      rw [after_snoc]
      cases errs with
      | quiet unrefused =>
        cases stop with
        | duplicateName e => exact absurd rfl (unrefused e)
        | endless => exact .inl rfl
      | clash strict held apart => exact .inr ⟨_, rfl, strict, apart, held⟩
  case blamed =>
    rw [after_snoc]
    exact blamed_resolve env (after env qs) r
  case count =>
    rw [← List.length_filterMap_eq_countP]
    exact blames.length_eq
  case any =>
    have clashes : errors (after env rs).diagnostics ≠ [] ↔
        (answers env rs).filterMap clash? ≠ [] := by
      rw [← List.length_pos_iff, ← List.length_pos_iff]
      exact iff_of_eq (congrArg (0 < ·) blames.length_eq)
    rw [Diagnostics.hasErrors_iff, clashes]
    constructor
    · intro some
      obtain ⟨e, he⟩ := List.exists_mem_of_ne_nil _ some
      obtain ⟨answer, hanswer, hclash⟩ := List.mem_filterMap.mp he
      exact ⟨e, clash?_eq_some.mp hclash ▸ hanswer⟩
    · rintro ⟨e, hanswer⟩
      exact List.ne_nil_of_mem (List.mem_filterMap.mpr ⟨_, hanswer, clash?_eq_some.mpr rfl⟩)

/-- The second item is refused, and then the owner is, who asks for it; the first item is
answered again. -/
theorem errors_are_clashes_strictPartners :
    ErrorsAreClashes strictPartners
        [strictItem "a", strictItem "b", strictOwner, strictItem "a"] ∧
      ((answers strictPartners
        [strictItem "a", strictItem "b", strictOwner, strictItem "a"]).map clash?) =
          [none, some ⟨"Item", "com.acme.a.Item", "com.acme.b.Item"⟩,
            some ⟨"Item", "com.acme.a.Item", "com.acme.b.Item"⟩, none] ∧
      (errors (after strictPartners
        [strictItem "a", strictItem "b", strictOwner, strictItem "a"]).diagnostics).length = 2 :=
  ⟨errors_are_clashes _ _, by decide +kernel, by decide +kernel⟩

end Pass

end Schemata
