import Schemata.Proofs.Pass.Advice
import Schemata.Proofs.Pass.Steps

/-!
# What definitions, occurrences and requests come to

A definition finds no declaration, or a name that is known, or a name that is new and is
registered when its schema is complete.  An occurrence is opened and then defined or written out,
and a request binds the directives of its element to what its occurrence yields: beside a
reference, or over anything else.  A member adds to a schema what its occurrence yields, unless it
is not visible.
-/
namespace Schemata

namespace Universe

/-- Whether a type leads to a definition of its own. -/
def isDefined (u : Universe) (t : TypeRef) : Bool :=
  match u.kindOf t with
  | .record _ => true
  | .interface _ => true
  | .enum _ => true
  | .iterable d => u.hasProperties d
  | _ => false

/-- A type is an array of another one that is no byte, or a collection of it without members of its
own. -/
def IsListOf (u : Universe) (t item : TypeRef) : Prop :=
  u.kindOf t = .array item ∧ u.primitiveOf? item ≠ some .byte ∨
    ∃ d, u.kindOf t = .iterable d ∧ u.hasProperties d = false ∧
      (u.bindings t).values.head? = some item

variable {u : Universe} {t item : TypeRef}

theorem IsListOf.isDefined (h : u.IsListOf t item) : u.isDefined t = false := by
  rcases h with ⟨kind, -⟩ | ⟨d, kind, bare, -⟩
  · rw [Universe.isDefined, kind]
  · rw [Universe.isDefined, kind]
    exact bare

theorem IsListOf.primitiveOf? (h : u.IsListOf t item) : u.primitiveOf? t = none := by
  rcases h with ⟨kind, -⟩ | ⟨d, kind, -, -⟩ <;> rw [Universe.primitiveOf?, kind]

end Universe

namespace Pass

/-- A pass in which a name was computed. -/
def withNames (p : Pass) (names : NameTable) : Pass := { p with names := names }

/-- A pass in which a new name was defined. -/
def withSchema (p : Pass) (name : String) (s : Schema) : Pass :=
  { finishName name p with registry := ((finishName name p).registry.register name s).2 }

/-- A pass that noted something. -/
def withDiagnostics (p : Pass) (ds : Diagnostics) : Pass :=
  { p with diagnostics := p.diagnostics ++ ds }

theorem withDiagnostics_nil (p : Pass) : p.withDiagnostics [] = p := by
  rw [withDiagnostics, List.append_nil]

theorem withDiagnostics_append (p : Pass) (ds ds' : Diagnostics) :
    (p.withDiagnostics ds).withDiagnostics ds' = p.withDiagnostics (ds ++ ds') := by
  rw [withDiagnostics, withDiagnostics, withDiagnostics, List.append_assoc]

end Pass

namespace Compiler

/-- The ways in which a definition yields an answer. -/
inductive Defines (c : Compiler) (env : Environment) (element : Option Element) (t : TypeRef)
    (scope : Scope) (p : Pass) : Option Schema → Pass → Prop where
  | undeclared (unknown : env.types.declOf? t = none) :
      Defines c env element t scope p none
        (p.withDiagnostics [.undeclared env.types t.display t])
  | known {d : Decl} {name : String} {names : NameTable} (declared : env.types.declOf? t = some d)
      (named : p.names.compute env.config env.types (d.nameRequest element t scope) =
        some (.ok (name, names)))
      (known : p.isKnown name = true) :
      Defines c env element t scope p (some (.reference name)) (p.withNames names)
  | built {d : Decl} {name : String} {names : NameTable} {s : Schema} {q : Pass}
      (declared : env.types.declOf? t = some d)
      (named : p.names.compute env.config env.types (d.nameRequest element t scope) =
        some (.ok (name, names)))
      (new : p.isKnown name = false)
      (built : Pass.Yields (c.build env d t scope) (Pass.startName name (p.withNames names)) s q) :
      Defines c env element t scope p (some (d.definedReference name (d.documented s)))
        (q.withSchema name (d.documented s))

variable {c : Compiler} {env : Environment} {element : Option Element} {t : TypeRef}
  {scope : Scope} {p q : Pass}

theorem Defines.of_undeclared {found : Option Schema} (h : c.Defines env element t scope p found q)
    (unknown : env.types.declOf? t = none) :
    found = none ∧ q = p.withDiagnostics [.undeclared env.types t.display t] := by
  cases h with
  | undeclared => exact ⟨rfl, rfl⟩
  | known declared => cases unknown.symm.trans declared
  | built declared => cases unknown.symm.trans declared

theorem defines_of_yields {found : Option Schema}
    (h : Pass.Yields (c.defined env element t scope) p found q) :
    c.Defines env element t scope p found q := by
  unfold Compiler.defined at h
  split at h
  · rename_i unknown
    simp only [Pass.yields_bind, Pass.yields_report, Pass.yields_pure] at h
    obtain ⟨_, _, rfl, rfl, rfl⟩ := h
    exact .undeclared unknown
  · rename_i d declared
    simp only [Pass.yields_bind, Pass.yields_assignName, Pass.yields_get] at h
    obtain ⟨name, _, ⟨names, named, rfl⟩, _, _, ⟨rfl, rfl⟩, h⟩ := h
    split at h
    · rename_i known
      obtain ⟨rfl, rfl⟩ := Pass.yields_pure.mp h
      exact .known declared named known
    · rename_i new
      simp only [Pass.yields_bind, Pass.yields_defining, Pass.yields_register,
        Pass.yields_pure] at h
      obtain ⟨s, _, ⟨q', built, rfl⟩, _, _, rfl, rfl, rfl⟩ := h
      exact .built declared named (Bool.eq_false_iff.mpr new) built

/-- What an occurrence makes of the schema that was found for its content. -/
def wrapped (env : Environment) (element : Option Element) (scope : Scope) (content : Opened)
    (s : Schema) : Resolved :=
  ⟨streamed env.config scope content.isStream (describedBy element s), content.nullable⟩

theorem yields_occurrence {found : Option Resolved} :
    Pass.Yields (c.occurrence env element t scope) p found q ↔
      ∃ s, Pass.Yields
          (c.opened env (subjectOf element t) element (openOccurrence env element t).1.type scope)
          (p.withDiagnostics (openOccurrence env element t).2) s q ∧
        s.map (wrapped env element scope (openOccurrence env element t).1) = found := by
  simp only [Compiler.occurrence, Pass.yields_bind, Pass.yields_noting, Pass.yields_pure]
  constructor
  · rintro ⟨_, _, ⟨rfl, rfl⟩, s, _, h, rfl, rfl⟩
    exact ⟨s, h, rfl⟩
  · rintro ⟨s, h, rfl⟩
    exact ⟨_, _, ⟨rfl, rfl⟩, s, q, h, rfl, rfl⟩

/-- The ways in which an opened type is represented: it is defined, or it is written out as a value,
a text of bytes, a list or a map, or it has no schema, as a list without one for its items. -/
inductive Represents (c : Compiler) (env : Environment) (subject : String)
    (element : Option Element) (t : TypeRef) (scope : Scope) (p : Pass) :
    Option Schema → Pass → Prop where
  | defined {found : Option Schema} {q : Pass} (isDefined : env.types.isDefined t = true)
      (defined : Pass.Yields (c.define element t scope) p found q) :
      Represents c env subject element t scope p found q
  | value {v : Primitive} (kind : env.types.kindOf t = .primitive v) :
      Represents c env subject element t scope p (some (v.schema.used .value t.directives)) p
  | bytes {item : TypeRef} (kind : env.types.kindOf t = .array item)
      (bytes : env.types.primitiveOf? item = some .byte) :
      Represents c env subject element t scope p (some ((Schema.typed .string).withFormat "byte")) p
  | list {item : TypeRef} {s : Schema} {q : Pass} (list : env.types.IsListOf t item)
      (items : Pass.Yields (c.argument env item scope) p (some s) q) :
      Represents c env subject element t scope p (some (.array s)) q
  | omitted {item : TypeRef} {q : Pass} (list : env.types.IsListOf t item)
      (items : Pass.Yields (c.argument env item scope) p none q) :
      Represents c env subject element t scope p none q
  | untyped {d : Decl} (kind : env.types.kindOf t = .iterable d)
      (bare : env.types.hasProperties d = false) (none : (env.types.bindings t).values = []) :
      Represents c env subject element t scope p (some (.array .object)) p
  | map {d : Decl} {s : Schema} {q : Pass} (kind : env.types.kindOf t = .map d)
      (written : Pass.Yields (c.map env t.args scope) p s q) :
      Represents c env subject element t scope p (some s) q
  | unrepresented (missing : env.types.isRepresented t = false) :
      Represents c env subject element t scope p none
        (p.withDiagnostics [.undeclared env.types subject t])

theorem represents_of_yields {subject : String} {found : Option Schema}
    (h : Pass.Yields (c.opened env subject element t scope) p found q) :
    c.Represents env subject element t scope p found q := by
  have listed {item : TypeRef} (list : env.types.IsListOf t item)
      (h : Pass.Yields (c.argument env item scope >>= fun s => pure (s.map Schema.array)) p found q) :
      c.Represents env subject element t scope p found q := by
    obtain ⟨s, _, items, h⟩ := Pass.yields_bind.mp h
    obtain ⟨rfl, rfl⟩ := Pass.yields_pure.mp h
    cases s with
    | none => exact .omitted list items
    | some s => exact .list list items
  unfold Compiler.opened at h
  cases kind : env.types.kindOf t with
  | array item =>
    simp only [kind, Compiler.arrayOf] at h
    split at h
    · rename_i bytes
      obtain ⟨rfl, rfl⟩ := Pass.yields_pure.mp h
      exact .bytes kind bytes
    · rename_i other
      exact listed (.inl ⟨kind, other⟩) h
  | primitive v =>
    simp only [kind] at h
    obtain ⟨rfl, rfl⟩ := Pass.yields_pure.mp h
    exact .value kind
  | map d =>
    simp only [kind, Pass.yields_bind, Pass.yields_pure] at h
    obtain ⟨s, _, written, rfl, rfl⟩ := h
    exact .map kind written
  | iterable d =>
    simp only [kind, Compiler.collection] at h
    split at h
    · rename_i members
      exact .defined (by rw [Universe.isDefined, kind]; exact members) h
    · rename_i members
      have bare : env.types.hasProperties d = false := Bool.eq_false_iff.mpr members
      split at h
      · rename_i none
        obtain ⟨rfl, rfl⟩ := Pass.yields_pure.mp h
        exact .untyped kind bare none
      · rename_i item rest values
        exact listed (.inr ⟨d, kind, bare, by rw [values]; rfl⟩) h
  | enum _ | record _ | interface _ =>
    simp only [kind] at h
    exact .defined (by rw [Universe.isDefined, kind]) h
  | _ =>
    simp only [kind, Pass.yields_bind, Pass.yields_report, Pass.yields_pure] at h
    obtain ⟨_, _, rfl, rfl, rfl⟩ := h
    exact .unrepresented (by rw [Universe.isRepresented, kind])

/-- Compilers of depth zero yield nothing; any other resolves by opening and defines by
assigning a name. -/
theorem yields_resolve_ofDepth {depth : Nat} {found : Option Resolved}
    (h : Pass.Yields ((ofDepth env depth).resolve element t scope) p found q) :
    ∃ inner, depth = inner + 1 ∧
      Pass.Yields ((ofDepth env inner).occurrence env element t scope) p found q := by
  cases depth with
  | zero => exact absurd h Pass.not_yields_throw
  | succ inner => exact ⟨inner, rfl, h⟩

theorem yields_define_ofDepth {depth : Nat} {found : Option Schema}
    (h : Pass.Yields ((ofDepth env depth).define element t scope) p found q) :
    ∃ inner, depth = inner + 1 ∧ (ofDepth env inner).Defines env element t scope p found q := by
  cases depth with
  | zero => exact absurd h Pass.not_yields_throw
  | succ inner => exact ⟨inner, rfl, defines_of_yields h⟩

section

variable {e : Element} {d s : Schema} {nullable : Bool}

/-- Over a reference the directives build a schema of their own. -/
theorem yields_bind_of_isRef (ref : d.isRef = true) :
    Pass.Yields (c.bind env e t d nullable) p s q ↔
      ∃ overlay, Pass.Yields (c.overlayAll env {} e t
          (Element.constraintTarget env p.registry t d) [d]) p overlay q ∧
        d.compose overlay e (e.admitsNull nullable) = s := by
  simp only [Compiler.bind, ref, if_true, Pass.yields_bind, Pass.yields_get, Pass.yields_pure]
  constructor
  · rintro ⟨_, _, ⟨rfl, rfl⟩, overlay, _, overlaid, same, rfl⟩
    exact ⟨overlay, overlaid, same⟩
  · rintro ⟨overlay, overlaid, same⟩
    exact ⟨_, _, ⟨rfl, rfl⟩, overlay, _, overlaid, same, rfl⟩

/-- A schema that is written out takes the directives itself. -/
theorem yields_bind_of_not_isRef (inline : d.isRef = false) :
    Pass.Yields (c.bind env e t d nullable) p s q ↔
      ∃ bound, Pass.Yields (c.overlayAll env d e t
          (Element.constraintTarget env p.registry t d) []) p bound q ∧
        { bound with
          labels.deprecated := if e.has .deprecated then some true
            else bound.labels.deprecated }.nullableIf (e.admitsNull nullable) = s := by
  simp only [Compiler.bind, inline, Bool.false_eq_true, if_false, Pass.yields_bind, Pass.yields_get,
    Pass.yields_pure]
  constructor
  · rintro ⟨_, _, ⟨rfl, rfl⟩, bound, _, overlaid, same, rfl⟩
    exact ⟨bound, overlaid, same⟩
  · rintro ⟨bound, overlaid, same⟩
    exact ⟨_, _, ⟨rfl, rfl⟩, bound, _, overlaid, same, rfl⟩

end

/-- The ways in which a request is answered. -/
inductive Answers (c : Compiler) (env : Environment) (r : Request) (p : Pass) :
    Option Schema → Pass → Prop where
  | omitted {q : Pass} (resolved : Pass.Yields (c.resolve r.element r.type r.scope) p none q) :
      Answers c env r p none q
  | plain {found : Resolved} {q : Pass}
      (resolved : Pass.Yields (c.resolve r.element r.type r.scope) p (some found) q)
      (bare : r.element.filter (!·.directives.isEmpty) = none) :
      Answers c env r p (some found.outer) q
  | bound {found : Resolved} {e : Element} {s : Schema} {q q' : Pass}
      (resolved : Pass.Yields (c.resolve r.element r.type r.scope) p (some found) q)
      (element : r.element = some e)
      (bound : Pass.Yields (c.bind env e r.type found.schema (found.nullable || e.has .nullable))
        q s q') : Answers c env r p (some s) q'

theorem answers_of_yields {r : Request} {answer : Option Schema}
    (h : Pass.Yields (c.request env r) p answer q) : c.Answers env r p answer q := by
  obtain ⟨found, p', resolved, h⟩ := Pass.yields_bind.mp h
  cases found with
  | none =>
    obtain ⟨rfl, rfl⟩ := Pass.yields_pure.mp h
    exact .omitted resolved
  | some found =>
    cases hbare : r.element.filter (!·.directives.isEmpty) with
    | none =>
      simp only [hbare] at h
      obtain ⟨rfl, rfl⟩ := Pass.yields_pure.mp h
      exact .plain resolved hbare
    | some e =>
      simp only [hbare, Pass.yields_bind, Pass.yields_pure] at h
      obtain ⟨s, _, bound, rfl, rfl⟩ := h
      exact .bound resolved (Option.filter_eq_some_iff.mp hbare).1 bound

section

variable {owner : Decl} {bindings : Bindings} {s parent : Schema} {P : Schema → Prop}

/-- What holds of a schema and is kept by composing it with what a definition of an ancestor yields
holds once all ancestors are added. -/
theorem keeps_addAncestors {ancestors : List TypeRef}
    (step : ∀ {s reference : Schema} {t : TypeRef} {p q : Pass}, P s →
      Pass.Yields (c.define none t scope) p (some reference) q → P (s.addAllOf reference))
    (h : Pass.Yields (ancestors.foldlM (c.addAncestor scope) parent) p s q) (start : P parent) :
    P s := by
  induction ancestors generalizing parent p with
  | nil =>
    obtain ⟨rfl, -⟩ := Pass.yields_pure.mp h
    exact start
  | cons t ancestors ih =>
    rw [List.foldlM_cons] at h
    obtain ⟨next, _, first, rest⟩ := Pass.yields_bind.mp h
    obtain ⟨found, _, defined, first⟩ := Pass.yields_bind.mp first
    cases found with
    | none =>
      obtain ⟨rfl, -⟩ := Pass.yields_pure.mp first
      exact ih rest start
    | some reference =>
      obtain ⟨rfl, -⟩ := Pass.yields_pure.mp first
      exact ih rest (step start defined)

/-- A record begins as an object or as a composition with its ancestors. -/
theorem keeps_recordStart
    (step : ∀ {s reference : Schema} {t : TypeRef} {p q : Pass}, P s →
      Pass.Yields (c.define none t scope) p (some reference) q → P (s.addAllOf reference))
    (h : Pass.Yields (c.recordStart env owner bindings scope) p s q) (object : P .object)
    (empty : P {}) : P s := by
  unfold Compiler.recordStart at h
  split at h
  · obtain ⟨rfl, -⟩ := Pass.yields_pure.mp h
    exact object
  · exact keeps_addAncestors step h empty

/-- An enumeration is written out.  Any other declaration is a record: its members are added to what
it begins as, and then it is settled. -/
theorem declaredSchema_cases (h : Pass.Yields (c.declaredSchema env owner t scope) p s q) :
    owner.kind = .enum ∧ s = (owner.enumSchema env.types).1 ∨
      owner.kind ≠ .enum ∧ ∃ start p₁ own,
        Pass.Yields (c.recordStart env owner (env.types.bindings t) scope) p start p₁ ∧
        Pass.Yields (c.addMembers env owner (env.types.bindings t) scope start) p₁ own q ∧
        s = own.settled := by
  unfold Compiler.declaredSchema at h
  split at h
  · rename_i kind
    obtain ⟨rfl, -⟩ := Pass.yields_noting.mp h
    exact .inl ⟨kind, rfl⟩
  · rename_i kind
    simp only [Compiler.recordSchema, Pass.yields_bind, Pass.yields_pure] at h
    obtain ⟨start, p₁, started, own, _, added, rfl, rfl⟩ := h
    exact .inr ⟨kind, start, p₁, own, started, added, rfl⟩

end

/-- The ways in which a member is added to a schema: it is not visible, or its type cannot be
represented, or its properties take its place, or it becomes a property of its own. -/
inductive AddsMember (c : Compiler) (env : Environment) (owner : Decl) (bindings : Bindings)
    (scope : Scope) (parent : Schema) (m : Member) (p : Pass) : Schema → Pass → Prop where
  | hidden (invisible : m.isVisible env owner scope.view = false) :
      AddsMember c env owner bindings scope parent m p parent p
  | omitted {q : Pass} (visible : m.isVisible env owner scope.view = true)
      (resolved : Pass.Yields
        (c.resolve (some (.ofMember owner m)) (m.type.substitute bindings) scope) p none q) :
      AddsMember c env owner bindings scope parent m p parent q
  | unwrapped {d : Directive} {found : Resolved} {q : Pass}
      (visible : m.isVisible env owner scope.view = true) (unwraps : m.unwrapping? = some d)
      (resolved : Pass.Yields
        (c.resolve (some (.ofMember owner m)) (m.type.substitute bindings) scope) p (some found)
        q) :
      AddsMember c env owner bindings scope parent m p (parent.inlined q.registry d found.schema) q
  | own {found : Resolved} {value : Schema} {q q' : Pass}
      (visible : m.isVisible env owner scope.view = true) (whole : m.unwrapping? = none)
      (resolved : Pass.Yields
        (c.resolve (some (.ofMember owner m)) (m.type.substitute bindings) scope) p (some found) q)
      (bound : Pass.Yields (c.bind env (.ofMember owner m) (m.type.substitute bindings)
        found.schema (m.includesNull found.nullable && !m.excludesNull)) q value q') :
      AddsMember c env owner bindings scope parent m p
        (parent.addProperty (m.propertyName owner).1 value (m.isRequired owner found.nullable))
        (q'.withDiagnostics (m.propertyName owner).2)

theorem yields_addMember {owner : Decl} {bindings : Bindings} {parent s : Schema} {m : Member} :
    Pass.Yields (c.addMember env owner bindings scope parent m) p s q ↔
      c.AddsMember env owner bindings scope parent m p s q := by
  unfold Compiler.addMember Compiler.addProperty
  constructor
  · intro h
    by_cases visible : m.isVisible env owner scope.view = true
    · rw [if_pos visible] at h
      obtain ⟨found, p', resolved, h⟩ := Pass.yields_bind.mp h
      cases found with
      | none =>
        obtain ⟨rfl, rfl⟩ := Pass.yields_pure.mp h
        exact .omitted visible resolved
      | some found =>
        cases unwraps : m.unwrapping? with
        | some d =>
          simp only [unwraps, Pass.yields_bind, Pass.yields_get, Pass.yields_pure] at h
          obtain ⟨_, _, ⟨rfl, rfl⟩, rfl, rfl⟩ := h
          exact .unwrapped visible unwraps resolved
        | none =>
          simp only [unwraps, Pass.yields_bind, Pass.yields_noting, Pass.yields_pure] at h
          obtain ⟨value, _, bound, _, _, ⟨rfl, rfl⟩, rfl, rfl⟩ := h
          exact .own visible unwraps resolved bound
    · rw [if_neg visible] at h
      obtain ⟨rfl, rfl⟩ := Pass.yields_pure.mp h
      exact .hidden (Bool.eq_false_iff.mpr visible)
  · intro h
    cases h with
    | hidden invisible =>
      rw [if_neg (Bool.eq_false_iff.mp invisible)]
      exact Pass.yields_pure.mpr ⟨rfl, rfl⟩
    | omitted visible resolved =>
      rw [if_pos visible]
      exact Pass.yields_bind.mpr ⟨_, _, resolved, Pass.yields_pure.mpr ⟨rfl, rfl⟩⟩
    | unwrapped visible unwraps resolved =>
      rw [if_pos visible]
      refine Pass.yields_bind.mpr ⟨_, _, resolved, ?_⟩
      simp only [unwraps, Pass.yields_bind, Pass.yields_get, Pass.yields_pure]
      exact ⟨_, _, ⟨rfl, rfl⟩, rfl, rfl⟩
    | own visible whole resolved bound =>
      rw [if_pos visible]
      refine Pass.yields_bind.mpr ⟨_, _, resolved, ?_⟩
      simp only [whole, Pass.yields_bind, Pass.yields_noting, Pass.yields_pure]
      exact ⟨_, _, bound, _, _, ⟨rfl, rfl⟩, rfl, rfl⟩

end Compiler

end Schemata
