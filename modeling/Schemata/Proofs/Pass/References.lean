import Schemata.Proofs.Naming.Distinct
import Schemata.Proofs.Pass.Growth
import Schemata.Proofs.Pass.Outcome

/-!
# Names of references

A request for a record or an interface is answered with a reference to the name of its key:
the candidate and the origin that are computed from the declaration, the arguments and the
view.  Two references differ exactly when the keys do.  A key shows only the simple names of
arguments, so that it does not tell all occurrences apart.
-/
namespace Schemata

/-- The record or interface that a request asks for; a stream that becomes an array asks for
none. -/
def Request.target? (env : Environment) (r : Request) : Option (TypeRef × Decl) :=
  let content := (openOccurrence env r.element r.type).1
  if content.isStream && !(r.scope.mediaTypes.any env.config.isStreaming) then none
  else
    match env.types.kindOf content.type with
    | .record d => some (content.type, d)
    | .interface d => some (content.type, d)
    | _ => none

/-- The candidate and the origin of what a request asks for. -/
def Request.key? (env : Environment) (r : Request) : Option (String × String) :=
  (r.target? env).bind fun found =>
    (found.2.nameRequest r.element found.1 r.scope).candidate env.config env.types

/-- A target is of a record or an interface, and its schema stays as it is found. -/
theorem Request.target?_eq_some {env : Environment} {r : Request} {t : TypeRef} {d : Decl}
    (h : r.target? env = some (t, d)) :
    (openOccurrence env r.element r.type).1.type = t ∧
      (env.types.kindOf t = .record d ∨ env.types.kindOf t = .interface d) ∧
      ((openOccurrence env r.element r.type).1.isStream &&
        !(r.scope.mediaTypes.any env.config.isStreaming)) = false := by
  simp only [Request.target?] at h
  split at h
  · cases h
  · rename_i single
    have hsingle := Bool.eq_false_iff.mpr single
    split at h
    · rename_i hkind
      cases h
      exact ⟨rfl, .inl hkind, hsingle⟩
    · rename_i hkind
      cases h
      exact ⟨rfl, .inr hkind, hsingle⟩
    · cases h

theorem refName?_outer (r : Resolved) : r.outer.refName? = r.schema.refName? := by
  unfold Resolved.outer
  split <;> rfl

theorem Schema.refName?_nullableIf (s : Schema) (nullable : Bool) :
    (s.nullableIf nullable).refName? = s.refName? := by
  cases nullable <;> rfl

theorem Decl.refName?_definedReference (d : Decl) (name : String) (s : Schema) :
    (d.definedReference name s).refName? = some name := by
  have same : (d.definedReference name s).refName? = (Schema.reference name).refName? := by
    unfold Decl.definedReference
    split <;> rfl
  rw [same, Schema.refName?_reference]

/-- What is laid over a reference leaves it as it was or makes it a part. -/
theorem Schema.refName?_of_compose {reference s : Schema} {e : Element} {nullable : Bool}
    {name : String} (h : (reference.compose s e nullable).refName? = some name) :
    reference.refName? = some name := by
  unfold Schema.compose at h
  split at h
  · rwa [Schema.refName?_nullableIf] at h
  · cases h

namespace Compiler

variable {env : Environment} {element : Option Element} {t : TypeRef} {scope : Scope} {p q : Pass}

theorem opened_of_kindOf {c : Compiler} {d : Decl} {subject : String}
    (h : env.types.kindOf t = .record d ∨ env.types.kindOf t = .interface d) :
    c.opened env subject element t scope = c.define element t scope := by
  rcases h with h | h <;> simp only [Compiler.opened, h]

theorem refName?_describedBy (s : Schema) : (describedBy element s).refName? = s.refName? := by
  unfold describedBy
  split <;> rfl

/-- A definition refers to the name that was assigned to its key. -/
theorem Defines.reference {depth : Nat} {d : Decl} {s : Schema} {key : String × String}
    (h : (ofDepth env depth).Defines env element t scope p (some s) q)
    (declared : env.types.declOf? t = some d)
    (hkey : (d.nameRequest element t scope).candidate env.config env.types = some key) :
    ∃ name, s.refName? = some name ∧ q.names.assigned.get? key = some name := by
  have given {d' : Decl} {name : String} {names : NameTable}
      (declared' : env.types.declOf? t = some d')
      (named : p.names.compute env.config env.types (d'.nameRequest element t scope) =
        some (.ok (name, names))) : names.assigned.get? key = some name := by
    have same : d' = d := Option.some.inj (declared'.symm.trans declared)
    subst same
    obtain ⟨key', hkey', assigned⟩ := NameTable.given_of_compute named
    rwa [← Option.some.inj (hkey'.symm.trans hkey)]
  cases h with
  | known declared' named _ => exact ⟨_, Schema.refName?_reference _, given declared' named⟩
  | built declared' named new built =>
    rename_i d' name names s q'
    have body := (Pass.frame_grows env).build ((Pass.frame_grows env).ofDepth depth) d' t scope
    exact ⟨name, Decl.refName?_definedReference _ _ _,
      (built.grows body).assigned (given declared' named)⟩

/-- A resolved target is a reference to the name of the key. -/
theorem reference_of_resolve {depth : Nat} {r : Request} {found : Resolved} {key : String × String}
    (h : Pass.Yields ((ofDepth env depth).resolve r.element r.type r.scope) p (some found) q)
    (hkey : r.key? env = some key) :
    ∃ name, found.schema.refName? = some name ∧ q.names.assigned.get? key = some name := by
  obtain ⟨⟨t, d⟩, target, hkey⟩ := Option.bind_eq_some_iff.mp hkey
  obtain ⟨htype, hkind, single⟩ := Request.target?_eq_some target
  obtain ⟨depth, rfl, occurs⟩ := yields_resolve_ofDepth h
  obtain ⟨s, opens, hfound⟩ := yields_occurrence.mp occurs
  obtain ⟨s, rfl, rfl⟩ := Option.map_eq_some_iff.mp hfound
  rw [htype, opened_of_kindOf hkind] at opens
  obtain ⟨inner, rfl, defines⟩ := yields_define_ofDepth opens
  have declared : env.types.declOf? t = some d := by
    refine Universe.declOf?_of_kindOf ?_
    rcases hkind with hkind | hkind <;> rw [hkind] <;> rfl
  obtain ⟨name, href, assigned⟩ := defines.reference declared hkey
  refine ⟨name, ?_, assigned⟩
  rw [wrapped, streamed, if_neg (by rw [single]; exact Bool.false_ne_true), refName?_describedBy,
    href]

/-- What is bound to a reference refers to the same name, if to any. -/
theorem refName?_of_bind {c : Compiler} {e : Element} {derived s : Schema} {nullable : Bool}
    {name : String} (h : Pass.Yields (c.bind env e t derived nullable) p s q)
    (isRef : derived.isRef = true) (href : s.refName? = some name) :
    derived.refName? = some name := by
  obtain ⟨overlay, -, rfl⟩ := (yields_bind_of_isRef isRef).mp h
  exact Schema.refName?_of_compose href

/-- A reference that answers a request has the name of the key. -/
theorem Answers.assigned {depth : Nat} {r : Request} {s : Schema} {key : String × String}
    {name : String} (h : (ofDepth env depth).Answers env r p (some s) q)
    (hkey : r.key? env = some key) (href : s.refName? = some name) :
    q.names.assigned.get? key = some name := by
  cases h with
  | plain resolved _ =>
    obtain ⟨given, hgiven, assigned⟩ := reference_of_resolve resolved hkey
    have same : given = name := by
      rw [refName?_outer, hgiven] at href
      exact Option.some.inj href
    rw [← same]
    exact assigned
  | bound resolved helement bound =>
    rename_i found e q'
    obtain ⟨given, hgiven, assigned⟩ := reference_of_resolve resolved hkey
    have same := (hgiven.symm.trans (refName?_of_bind bound (Schema.isRef_of_refName? hgiven) href))
    have later := (Pass.frame_grows env).bindElement ((Pass.frame_grows env).ofDepth depth) e r.type
      found.schema (found.nullable || e.has .nullable)
    rw [← Option.some.inj same]
    exact (bound.grows later).assigned assigned

end Compiler

namespace Pass

variable {env : Environment} {rs : List Request}

/-- A request was answered with a reference to a name. -/
def Refers (env : Environment) (rs : List Request) (r : Request) (name : String) : Prop :=
  ∃ s, (r, .ok (some s)) ∈ rs.zip (answers env rs) ∧ s.refName? = some name

theorem Refers.assigned {r : Request} {key : String × String} {name : String}
    (h : Refers env rs r name) (hkey : r.key? env = some key) :
    (after env rs).names.assigned.get? key = some name := by
  obtain ⟨s, answered, href⟩ := h
  obtain ⟨qs, rest, rfl, answer⟩ := answered_of_mem_zip answered
  have yields : Yields ((Compiler.serving env r.element r.type).request env r) (after env qs)
      (some s) ((after env qs).resolve env r).2 := Prod.ext answer rfl
  have assigned := (Compiler.answers_of_yields yields).assigned hkey href
  have later := (frame_grows env).serve ((after env qs).resolve env r).2 rest
  have split : after env (qs ++ r :: rest) =
      (serve env ((after env qs).resolve env r).2 rest).2 := by
    rw [after, serve_append]
    rfl
  rw [split]
  exact later.assigned assigned

/-- The tables of a pass are those that assignments lead to. -/
theorem frame_reachable (env : Environment) : Frame env fun p q =>
    NameTable.Reachable env.config.naming p.names →
      NameTable.Reachable env.config.naming q.names where
  refl _ := id
  trans h h' := h' ∘ h
  report _ _ := id
  assign {p request name names} hcompute before := by
    obtain ⟨key, found, h⟩ := Option.map_eq_some_iff.mp hcompute
    exact .assign before h
  abandon _ h := h
  register _ _ h := h

theorem reachable_after (env : Environment) (rs : List Request) :
    NameTable.Reachable env.config.naming (after env rs).names :=
  (frame_reachable env).serve {} rs .empty

/-- As long as numbered names stay apart from all others, two references have different names
exactly when their keys differ. -/
theorem refers_ne_iff (env : Environment) (rs : List Request) {a b : Request} {m n : String}
    {key key' : String × String} (ha : Refers env rs a m) (hb : Refers env rs b n)
    (hkey : a.key? env = some key) (hkey' : b.key? env = some key')
    (apart : NameTable.NumbersApart env.config.naming (after env rs).names) :
    m ≠ n ↔ key ≠ key' := by
  have hm := ha.assigned hkey
  have hn := hb.assigned hkey'
  have tells := (reachable_after env rs).tellsApart_iff.mpr apart
  constructor
  · intro other same
    subst same
    exact other (Option.some.inj (hm.symm.trans hn))
  · intro other same
    subst same
    exact other (tells key key' m hm hn)

/-- The name that an answer refers to. -/
def answeredName? (answer : Except Stop (Option Schema)) : Option String :=
  (answer.toOption.bind id).bind Schema.refName?

theorem refers_of_answeredName? {r : Request} {name : String} {i : Nat} (hr : rs[i]? = some r)
    (hname : ((answers env rs).map answeredName?)[i]? = some (some name)) :
    Refers env rs r name := by
  rw [List.getElem?_map] at hname
  obtain ⟨answer, hanswer, hname⟩ := Option.map_eq_some_iff.mp hname
  obtain ⟨s, hs, href⟩ := Option.bind_eq_some_iff.mp hname
  have hok : answer = .ok (some s) := by
    cases answer with
    | ok found => exact congrArg Except.ok hs
    | error e => cases hs
  subst hok
  refine ⟨s, List.mem_of_getElem? (i := i) ?_, href⟩
  rw [List.getElem?_zip_eq_some]
  exact ⟨hr, hanswer⟩

/-- A generic type and two types of one simple name. -/
def wrappers : Environment where
  types := (Universe.initial .standard).insertAll
    [{ name := "com.acme.Wrapper", params := [⟨"T", []⟩],
       members := [{ name := "value", type := .plain "T" }] },
      { name := "com.acme.a.Item" }, { name := "com.acme.b.Item" }]
  config := {}

def itemRequest (package : String) : Request :=
  { type := .plain ("com.acme." ++ package ++ ".Item") }

def wrapperRequest (package : String) : Request :=
  { type := .generic "com.acme.Wrapper" [(itemRequest package).type] }

/-- The two types of one simple name get two names. -/
theorem refers_ne_iff_items :
    (Refers wrappers [itemRequest "a", itemRequest "b"] (itemRequest "a") "Item" ∧
      Refers wrappers [itemRequest "a", itemRequest "b"] (itemRequest "b") "Item_1" ∧
      (itemRequest "a").key? wrappers = some ("Item", "com.acme.a.Item") ∧
      (itemRequest "b").key? wrappers = some ("Item", "com.acme.b.Item") ∧
      NameTable.NumbersApart wrappers.config.naming
        (after wrappers [itemRequest "a", itemRequest "b"]).names) ∧
      ("Item" ≠ "Item_1" ↔ ("Item", "com.acme.a.Item") ≠ ("Item", "com.acme.b.Item")) := by
  have names : (answers wrappers [itemRequest "a", itemRequest "b"]).map answeredName? =
      [some "Item", some "Item_1"] := by
    decide +kernel
  have table : (after wrappers [itemRequest "a", itemRequest "b"]).names.assigned.values =
      ["Item", "Item_1"] := by
    decide +kernel
  have first : Refers wrappers [itemRequest "a", itemRequest "b"] (itemRequest "a") "Item" :=
    refers_of_answeredName? (i := 0) rfl (by rw [names]; rfl)
  have second : Refers wrappers [itemRequest "a", itemRequest "b"] (itemRequest "b") "Item_1" :=
    refers_of_answeredName? (i := 1) rfl (by rw [names]; rfl)
  have hkey : (itemRequest "a").key? wrappers = some ("Item", "com.acme.a.Item") := by
    decide +kernel
  have hkey' : (itemRequest "b").key? wrappers = some ("Item", "com.acme.b.Item") := by
    decide +kernel
  have apart : NameTable.NumbersApart wrappers.config.naming
      (after wrappers [itemRequest "a", itemRequest "b"]).names := by
    refine (reachable_after _ _).tellsApart_iff.mp ?_
    exact NameTable.tellsApart_of_nodup (by rw [table]; decide)
  exact ⟨⟨first, second, hkey, hkey', apart⟩,
    refers_ne_iff wrappers _ first second hkey hkey' apart⟩

/-- References to occurrences that are written differently, or seen through different views,
have different names. -/
def KeepsApart (env : Environment) (rs : List Request) : Prop :=
  ∀ a b m n, Refers env rs a m → Refers env rs b n →
    ∀ t d t' d', a.target? env = some (t, d) → b.target? env = some (t', d') →
      t.display ≠ t'.display ∨ a.scope.view ≠ b.scope.view → m ≠ n

/-- A key shows only the simple names of arguments. -/
theorem not_keepsApart_wrappers :
    ¬ KeepsApart wrappers [wrapperRequest "a", wrapperRequest "b"] := by
  have names : (answers wrappers [wrapperRequest "a", wrapperRequest "b"]).map answeredName? =
      [some "Wrapper_Item_", some "Wrapper_Item_"] := by
    decide +kernel
  have first : Refers wrappers _ (wrapperRequest "a") "Wrapper_Item_" :=
    refers_of_answeredName? (i := 0) rfl (by rw [names]; rfl)
  have second : Refers wrappers _ (wrapperRequest "b") "Wrapper_Item_" :=
    refers_of_answeredName? (i := 1) rfl (by rw [names]; rfl)
  intro apart
  refine apart _ _ _ _ first second _ _ _ _ rfl rfl (.inl ?_) rfl
  decide +kernel

end Pass

end Schemata
