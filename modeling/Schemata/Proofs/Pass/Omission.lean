import Schemata.Proofs.Pass.Growth
import Schemata.Proofs.Schema.Properties

/-!
# Nothing is left out without a report

An occurrence that has no schema led to a type that is not declared, and the type was reported
where it was met: arrays, collections, wrappers and substitutes only pass on that there is
nothing.  A member without a schema is left out of its definition, so that its type was reported
while it was resolved.
-/
namespace Schemata

open Pass

namespace Pass

/-- From one state to the other a type was reported that is not declared. -/
def ReportsUnknown (p q : Pass) : Prop :=
  ∃ new, q.diagnostics = p.diagnostics ++ new ∧ ∃ d ∈ new, d.code = .unknownType

theorem reportsUnknown_undeclared (p : Pass) (u : Universe) (subject : String) (t : TypeRef) :
    ReportsUnknown p (p.withDiagnostics [.undeclared u subject t]) :=
  ⟨_, rfl, _, List.mem_singleton_self _, rfl⟩

theorem Grows.reportsUnknown {p q r : Pass} (h : Grows p q) (later : ReportsUnknown q r) :
    ReportsUnknown p r := by
  obtain ⟨between, hbetween⟩ := h.diagnostics
  obtain ⟨new, hnew, d, hd, code⟩ := later
  refine ⟨between ++ new, ?_, d, List.mem_append_right _ hd, code⟩
  rw [hnew, ← hbetween, List.append_assoc]

end Pass

namespace Compiler

/-- A compiler that reports a type for each call without a schema. -/
structure Reports (c : Compiler) : Prop where
  resolve {element : Option Element} {t : TypeRef} {scope : Scope} {p q : Pass} :
    Yields (c.resolve element t scope) p none q → ReportsUnknown p q
  define {element : Option Element} {t : TypeRef} {scope : Scope} {p q : Pass} :
    Yields (c.define element t scope) p none q → ReportsUnknown p q

namespace Reports

variable {c : Compiler} {env : Environment} {element : Option Element} {t : TypeRef}
  {scope : Scope} {p q : Pass}

theorem argument (h : c.Reports) (hm : Yields (c.argument env t scope) p none q) :
    ReportsUnknown p q := by
  simp only [Compiler.argument, Compiler.schema?, yields_bind, yields_pure] at hm
  obtain ⟨_, _, ⟨found, _, resolved, rfl, rfl⟩, nothing, rfl⟩ := hm
  cases found with
  | none => exact h.resolve resolved
  | some r => cases nothing

theorem opened (h : c.Reports) {subject : String}
    (hm : Yields (c.opened env subject element t scope) p none q) : ReportsUnknown p q := by
  cases represents_of_yields hm with
  | defined _ hm => exact h.define hm
  | omitted _ items => exact h.argument items
  | unrepresented => exact reportsUnknown_undeclared p env.types subject t

theorem occurrence (h : c.Reports) (hm : Yields (c.occurrence env element t scope) p none q) :
    ReportsUnknown p q := by
  obtain ⟨found, opened, nothing⟩ := yields_occurrence.mp hm
  obtain rfl := Option.map_eq_none_iff.mp nothing
  exact (Grows.report p _).reportsUnknown (h.opened opened)

end Reports

/-- Only a type without a declaration has no definition. -/
theorem Defines.reports {c : Compiler} {env : Environment} {element : Option Element} {t : TypeRef}
    {scope : Scope} {p q : Pass} (h : c.Defines env element t scope p none q) :
    ReportsUnknown p q := by
  cases h with
  | undeclared => exact reportsUnknown_undeclared p env.types t.display t

theorem reports_ofDepth (env : Environment) (depth : Nat) : (ofDepth env depth).Reports := by
  induction depth with
  | zero => exact ⟨fun hm => absurd hm not_yields_throw, fun hm => absurd hm not_yields_throw⟩
  | succ depth ih => exact ⟨ih.occurrence, fun hm => (defines_of_yields hm).reports⟩

end Compiler

/-- A request without a schema reported a type. -/
theorem Pass.reportsUnknown_of_resolve {env : Environment} {r : Request} {p q : Pass}
    (h : p.resolve env r = (.ok none, q)) : ReportsUnknown p q := by
  cases Compiler.answers_of_yields h with
  | omitted resolved => exact (Compiler.reports_ofDepth env _).resolve resolved

/-! ### Members -/

/-- Whether the member may supply a property of the name: it is its own, or one of those that take
its place. -/
def Member.MaySupply (m : Member) (owner : Decl) (name : String) : Prop :=
  match m.unwrapping? with
  | none => (m.propertyName owner).1 = name
  | some d => ∃ inner, d.affixed inner = name

/-- What became of a visible member of a declaration: its type was resolved, and either a type
was reported meanwhile, or it is a property.  The properties of an unwrapped member take its
place. -/
def Member.Accounted (c : Compiler) (owner : Decl) (bindings : Bindings) (scope : Scope)
    (m : Member) (p : Pass) (s : Schema) (q : Pass) : Prop :=
  ∃ p₁ found p₂, Grows p p₁ ∧ Grows p₂ q ∧
    Yields (c.resolve (some (.ofMember owner m)) (m.type.substitute bindings) scope) p₁ found p₂ ∧
    match found with
    | none => ReportsUnknown p₁ p₂
    | some _ => m.unwrapping? = none → (m.propertyName owner).1 ∈ s.propertyNames

namespace Compiler

variable {c : Compiler} {env : Environment} {owner : Decl} {bindings : Bindings} {scope : Scope}
  {p q : Pass} {parent s : Schema} {m : Member}

/-- A member adds some properties to a schema, and the same ones to any other: its own, or those
that take its place. -/
theorem exists_added_of_addMember
    (h : Yields (c.addMember env owner bindings scope parent m) p s q) :
    ∃ added, s = parent.addAll added ∧
      (∀ other, Yields (c.addMember env owner bindings scope other m) p (other.addAll added) q) ∧
      ∀ property ∈ added,
        m.isVisible env owner scope.view = true ∧ m.MaySupply owner property.name := by
  cases yields_addMember.mp h with
  | hidden invisible =>
    exact ⟨[], rfl, fun other => yields_addMember.mpr (.hidden invisible),
      fun property none => by cases none⟩
  | omitted visible resolved =>
    exact ⟨[], rfl, fun other => yields_addMember.mpr (.omitted visible resolved),
      fun property none => by cases none⟩
  | unwrapped visible unwraps resolved =>
    refine ⟨_, Schema.inlined_eq_addAll _ _ _ _, fun other => ?_,
      fun property hproperty => ⟨visible, ?_⟩⟩
    · rw [← Schema.inlined_eq_addAll]
      exact yields_addMember.mpr (.unwrapped visible unwraps resolved)
    · obtain ⟨inner, -, rfl⟩ := List.mem_map.mp hproperty
      rw [Member.MaySupply, unwraps]
      exact ⟨inner.name, rfl⟩
  | @own found value _ _ visible whole resolved bound =>
    refine ⟨[⟨(m.propertyName owner).1, value, m.isRequired owner found.nullable⟩], rfl,
      fun other => yields_addMember.mpr (.own visible whole resolved bound),
      fun property hproperty => ⟨visible, ?_⟩⟩
    rw [List.mem_singleton.mp hproperty, Member.MaySupply, whole]

/-- So do some members one after the other. -/
theorem exists_added_of_addMembers {ms : List Member}
    (h : Yields (ms.foldlM (c.addMember env owner bindings scope) parent) p s q) :
    ∃ added, s = parent.addAll added ∧
      (∀ other, Yields (ms.foldlM (c.addMember env owner bindings scope) other) p
        (other.addAll added) q) ∧
      ∀ property ∈ added, ∃ m ∈ ms,
        m.isVisible env owner scope.view = true ∧ m.MaySupply owner property.name := by
  induction ms generalizing parent p with
  | nil =>
    obtain ⟨rfl, rfl⟩ := yields_pure.mp h
    exact ⟨[], rfl, fun other => yields_pure.mpr ⟨rfl, rfl⟩, fun property none => by cases none⟩
  | cons m ms ih =>
    rw [List.foldlM_cons] at h
    obtain ⟨next, p', first, rest⟩ := yields_bind.mp h
    obtain ⟨added, rfl, firsts, supplied⟩ := exists_added_of_addMember first
    obtain ⟨later, rfl, rests, others⟩ := ih rest
    refine ⟨added ++ later, (Schema.addAll_append _ _ _).symm, fun other => ?_,
      fun property hproperty => ?_⟩
    · rw [List.foldlM_cons, Schema.addAll_append]
      exact yields_bind.mpr ⟨_, _, firsts other, rests _⟩
    · rcases List.mem_append.mp hproperty with here | later
      · exact ⟨m, List.mem_cons_self, supplied property here⟩
      · obtain ⟨other, hother, supplies⟩ := others property later
        exact ⟨other, List.mem_cons_of_mem _ hother, supplies⟩

/-- A member takes no property away. -/
theorem names_of_addMember (h : Yields (c.addMember env owner bindings scope parent m) p s q) :
    parent.propertyNames ⊆ s.propertyNames := by
  obtain ⟨added, rfl, -⟩ := exists_added_of_addMember h
  exact fun name hname => Schema.mem_propertyNames_addAll.mpr (.inl hname)

theorem grows_of_addMember (hc : c.Respects Grows)
    (h : Yields (c.addMember env owner bindings scope parent m) p s q) : Grows p q :=
  h.grows ((frame_grows env).course.trail.addMember fun call _ => hc call)

/-- The members that are still to come take nothing away. -/
theorem later_of_addMembers (hc : c.Respects Grows) {ms : List Member}
    (h : Yields (ms.foldlM (c.addMember env owner bindings scope) parent) p s q) :
    Grows p q ∧ parent.propertyNames ⊆ s.propertyNames := by
  induction ms generalizing parent p with
  | nil =>
    obtain ⟨rfl, rfl⟩ := yields_pure.mp h
    exact ⟨.refl p, List.Subset.refl _⟩
  | cons m ms ih =>
    rw [List.foldlM_cons] at h
    obtain ⟨next, p', first, rest⟩ := yields_bind.mp h
    obtain ⟨grows, names⟩ := ih rest
    exact ⟨(grows_of_addMember hc first).trans grows,
      List.Subset.trans (names_of_addMember first) names⟩

/-- What each member keeps while the others are still to come holds once all are added. -/
theorem keeps_addMembers (hc : c.Respects Grows) {P : Schema → Prop} {ms : List Member}
    (step : ∀ {m s s' p p'}, m ∈ ms → P s →
      Yields (c.addMember env owner bindings scope s m) p s' p' → Grows p' q → P s')
    (h : Yields (ms.foldlM (c.addMember env owner bindings scope) parent) p s q)
    (start : P parent) : P s := by
  induction ms generalizing parent p with
  | nil =>
    obtain ⟨rfl, -⟩ := yields_pure.mp h
    exact start
  | cons m ms ih =>
    rw [List.foldlM_cons] at h
    obtain ⟨next, p', first, rest⟩ := yields_bind.mp h
    have added := step List.mem_cons_self start first (later_of_addMembers hc rest).1
    exact ih (fun hm => step (List.mem_cons_of_mem _ hm)) rest added

theorem accounted_addMember (reports : c.Reports) (hc : c.Respects Grows)
    (visible : m.isVisible env owner scope.view = true)
    (h : Yields (c.addMember env owner bindings scope parent m) p s q) :
    m.Accounted c owner bindings scope p s q := by
  cases yields_addMember.mp h with
  | hidden invisible => cases visible.symm.trans invisible
  | omitted _ resolved =>
    exact ⟨p, none, q, .refl p, .refl q, resolved, reports.resolve resolved⟩
  | @unwrapped d found _ _ unwraps resolved =>
    exact ⟨p, some found, q, .refl p, .refl q, resolved, fun whole => (by cases unwraps ▸ whole)⟩
  | @own found value p' q' _ _ resolved bound =>
    have grows : Grows p' q' := bound.grows ((frame_grows env).bindElement hc _ _ _ _)
    exact ⟨p, some found, p', .refl p, grows.trans (.report q' _), resolved,
      fun _ => Schema.mem_propertyNames_addProperty.mpr (.inl rfl)⟩

end Compiler

namespace Member

variable {c : Compiler} {owner : Decl} {bindings : Bindings} {scope : Scope} {m : Member}
  {p p' q q' : Pass} {s s' : Schema}

theorem Accounted.later (h : m.Accounted c owner bindings scope p s q) (grows : Grows q q')
    (names : s.propertyNames ⊆ s'.propertyNames) :
    m.Accounted c owner bindings scope p s' q' := by
  obtain ⟨p₁, found, p₂, before, after, resolved, became⟩ := h
  refine ⟨p₁, found, p₂, before, after.trans grows, resolved, ?_⟩
  cases found with
  | none => exact became
  | some r => exact fun plain => names (became plain)

theorem Accounted.earlier (h : m.Accounted c owner bindings scope p' s q)
    (grows : Grows p p') : m.Accounted c owner bindings scope p s q := by
  obtain ⟨p₁, found, p₂, before, rest⟩ := h
  exact ⟨p₁, found, p₂, grows.trans before, rest⟩

end Member

/-- Each visible member of a list is accounted for once all are added. -/
theorem Compiler.accounted_addMembers {c : Compiler} {env : Environment} {owner : Decl}
    {bindings : Bindings} {scope : Scope} (reports : c.Reports) (hc : c.Respects Grows)
    {ms : List Member} {parent s : Schema} {p q : Pass}
    (h : Yields (ms.foldlM (c.addMember env owner bindings scope) parent) p s q) :
    ∀ m ∈ ms, m.isVisible env owner scope.view = true →
      m.Accounted c owner bindings scope p s q := by
  induction ms generalizing parent p with
  | nil => exact fun m hm => by cases hm
  | cons first ms ih =>
    rw [List.foldlM_cons] at h
    obtain ⟨next, p', added, rest⟩ := yields_bind.mp h
    intro m hm visible
    rcases List.mem_cons.mp hm with rfl | later
    · obtain ⟨grows, names⟩ := later_of_addMembers hc rest
      exact (accounted_addMember reports hc visible added).later grows names
    · exact (ih rest m later visible).earlier (grows_of_addMember hc added)

namespace Pass

/-- An occurrence or a request that comes to nothing reported a type that is not declared, and a
visible member that is left out of a definition reported it while its type was resolved. -/
theorem omitted_reported (env : Environment) (depth : Nat) (p q : Pass) :
    (∀ r, p.resolve env r = (.ok none, q) → ReportsUnknown p q) ∧
    (∀ element t scope,
      Yields ((Compiler.ofDepth env depth).occurrence env element t scope) p none q →
        ReportsUnknown p q) ∧
    (∀ owner bindings scope start s,
      Yields ((Compiler.ofDepth env depth).addMembers env owner bindings scope start) p s q →
        ∀ m ∈ owner.members, m.isVisible env owner scope.view = true →
          m.Accounted (Compiler.ofDepth env depth) owner bindings scope p s q) := by
  have reports := Compiler.reports_ofDepth env depth
  refine ⟨fun r => reportsUnknown_of_resolve, fun element t scope => reports.occurrence, ?_⟩
  intro owner bindings scope start s added
  exact Compiler.accounted_addMembers reports ((frame_grows env).ofDepth depth) added

/-- A record with a property of a type that is not declared. -/
def lostBox : Decl :=
  { name := "com.acme.Box", members :=
    [{ name := "size", type := .plain "int" },
      { name := "content", type := .generic "list" [.plain "com.acme.Lost"] }] }

def lostBoxes : Environment where
  types := (Universe.initial .standard).insertAll [lostBox]
  config := {}

def lostRequest : Request := { type := .generic "list" [.plain "com.acme.Lost"] }

/-- Whether an answer came without a schema. -/
def isNothing : Except Stop (Option α) → Bool
  | .ok none => true
  | _ => false

theorem eq_of_isNothing {answer : Except Stop (Option α)} (h : isNothing answer = true) :
    answer = .ok none := by
  cases answer with
  | error e => cases h
  | ok found =>
    cases found with
    | none => rfl
    | some a => cases h

/-- The list comes to nothing, and so does the content of the box. -/
theorem omitted_reported_lostBoxes :
    (∃ q, ({} : Pass).resolve lostBoxes lostRequest = (.ok none, q) ∧ ReportsUnknown {} q) ∧
    (∃ q, Yields ((Compiler.ofDepth lostBoxes 4).occurrence lostBoxes none lostRequest.type {}) {}
      none q ∧ ReportsUnknown {} q) ∧
    ∃ s q, Yields ((Compiler.ofDepth lostBoxes 4).addMembers lostBoxes lostBox [] {} .object) {}
        s q ∧
      ∀ m ∈ lostBox.members, m.isVisible lostBoxes lostBox none = true ∧
        m.Accounted (Compiler.ofDepth lostBoxes 4) lostBox [] {} {} s q := by
  have visible : ∀ m ∈ lostBox.members, m.isVisible lostBoxes lostBox none = true := by
    decide +kernel
  have request : ({} : Pass).resolve lostBoxes lostRequest = (.ok none, _) :=
    Prod.ext (eq_of_isNothing (by decide +kernel)) rfl
  have occurrence : Yields
      ((Compiler.ofDepth lostBoxes 4).occurrence lostBoxes none lostRequest.type {}) {} none _ :=
    Prod.ext (eq_of_isNothing (by decide +kernel)) rfl
  obtain ⟨s, added⟩ := exists_of_stop? (p := {})
    (m := (Compiler.ofDepth lostBoxes 4).addMembers lostBoxes lostBox [] {} .object)
    (by decide +kernel)
  refine ⟨⟨_, request, (omitted_reported lostBoxes 0 {} _).1 _ request⟩,
    ⟨_, occurrence, (omitted_reported lostBoxes 4 {} _).2.1 _ _ _ occurrence⟩,
    s, _, added, fun m hm => ⟨visible m hm, ?_⟩⟩
  exact (omitted_reported lostBoxes 4 {} _).2.2 _ _ {} _ _ added m hm (visible m hm)

end Pass

end Schemata
