import Schemata.Proofs.Naming.Distinct
import Schemata.Proofs.Pass.Integrity

/-!
# What a stopped request leaves behind

A request that stops keeps the schemas that it has registered so far, while the definitions
around them are given up.  Their names stay assigned, and whatever was registered in between
may refer to them.  No other reference is left without a schema.
-/
namespace Schemata

open Pass Schema

/-- The schema refers to a name, at whatever depth. -/
def Schema.RefersTo (s : Schema) (name : String) : Prop :=
  ∃ inner, Within inner s ∧ inner.ref = some (componentsPath ++ name)

namespace Pass

/-- The name was given to a definition, and no schema is registered under it. -/
def Abandoned (p : Pass) (name : String) : Prop :=
  (∃ key, p.names.assigned.get? key = some name) ∧ p.registry.contains name = false

/-- What is registered refers to names in a set, if all names that were assigned are in it. -/
def Holds (K : String → Prop) (p : Pass) (_ : Option Stop) (q : Pass) : Prop :=
  Grows p q ∧ ((assigning K).before q → ReferInto K p → ReferInto K q)

variable {env : Environment} {K : String → Prop}

theorem course_holds (K : String → Prop) : Course (Holds K) where
  refl p := ⟨.refl p, fun _ => id⟩
  report p ds := ⟨Grows.report p ds, fun _ => id⟩
  trans first second := ⟨first.1.trans second.1, fun before start =>
    second.2 before (first.2 ((assigning K).earlier second.1 before) start)⟩

/-- A definition that is given up registers nothing itself. -/
theorem holds_ends (free : env.types.isRefFree = true) {depth : Nat} {element : Option Element}
    {t : TypeRef} {scope : Scope} {p q : Pass} {o : Option Stop}
    (hc : ∀ call : Call, call.Takes (Holds K) (Compiler.ofDepth env depth))
    (ends : (Compiler.ofDepth env depth).Ends env element t scope p o q) : Holds K p o q := by
  have grows := (frame_grows env).ends ((frame_grows env).ofDepth depth) ends
  refine ⟨grows, fun before start => ?_⟩
  cases ends with
  | yields answered =>
    have linked := Compiler.linked_ofDepth free (assigning_names K) depth
    exact ((linked.defines (assigning_names K) free answered).2 before start).1
  | nameless => exact start
  | refused => exact start
  | stopped _ _ _ stopped =>
    have body := ((course_holds K).build fun call _ => hc call).stops stopped
    refine body.2 before fun entry hentry => start entry ?_
    rwa [schemas_startName] at hentry

theorem holds_resolve (free : env.types.isRefFree = true) (K : String → Prop) (p : Pass)
    (r : Request) : ∃ o, Holds K p o (p.resolve env r).2 :=
  ⟨_, (course_holds K).request (fun _ _ => (course_holds K).ofDepth (fun _ => True)
    (course_holds K).refl (fun _ _ _ => trivial)
    (fun hc _ => holds_ends free fun call => hc call trivial) _ trivial) p⟩

theorem contains_resolve (env : Environment) (p : Pass) (r : Request) {name : String}
    (h : p.registry.contains name = true) : (p.resolve env r).2.registry.contains name = true := by
  rw [Registry.contains, Assoc.contains_iff_mem_keys] at h ⊢
  exact (((frame_grows env).resolve p r).schemas.map Prod.fst).subset h

/-- After a request, whether it was answered or stopped, a reference is without a schema only
where a schema that the request has registered refers to a name that was abandoned. -/
theorem noDangling_resolve_iff (env : Environment) (p : Pass) (r : Request)
    (free : env.types.isRefFree = true) (closed : NoDangling p) :
    NoDangling (p.resolve env r).2 ↔
      ∀ entry ∈ (p.resolve env r).2.registry.schemas, entry ∉ p.registry.schemas →
        ∀ name, entry.2.RefersTo name → ¬ Abandoned (p.resolve env r).2 name := by
  constructor
  · rintro leads entry hentry - name ⟨inner, inside, href⟩ ⟨-, missing⟩
    obtain ⟨pointed, same, registered⟩ := leads entry hentry inner inside _ href
    rw [String.append_right_inj] at same
    rw [← same, missing] at registered
    cases registered
  · intro kept
    have old {entry : String × Schema} (hentry : entry ∈ p.registry.schemas) :
        Leads (p.resolve env r).2.registry entry.2 :=
      (closed entry hentry).mono fun name => contains_resolve env p r
    obtain ⟨_, -, holds⟩ := holds_resolve free (fun name =>
      (p.resolve env r).2.registry.contains name = true ∨
        ∃ key, (p.resolve env r).2.names.assigned.get? key = some name) p r
    have given := holds (fun key name h => .inr ⟨key, h⟩)
      fun entry hentry => (old hentry).mono fun _ => .inl
    intro entry hentry
    by_cases before : entry ∈ p.registry.schemas
    · exact old before
    · intro inner inside path href
      obtain ⟨name, rfl, known⟩ := given entry hentry inner inside path href
      refine ⟨name, rfl, known.elim id fun assigned => ?_⟩
      by_contra missing
      exact kept entry hentry before name ⟨inner, inside, href⟩
        ⟨assigned, Bool.eq_false_iff.mpr missing⟩

/-! ### Names are abandoned by stopped requests only -/

/-- Every name that was given to a definition is known. -/
def Settled (p : Pass) : Prop :=
  ∀ key name, p.names.assigned.get? key = some name → p.isKnown name = true

theorem settled_withNames {p : Pass} {names : NameTable} {request : NameRequest} {name : String}
    (h : Settled p)
    (named : p.names.compute env.config env.types request = some (.ok (name, names)))
    {key : String × String} {other : String} (given : names.assigned.get? key = some other) :
    p.isKnown other = true ∨ other = name := by
  obtain ⟨⟨candidate, origin⟩, -, assigned⟩ := Option.map_eq_some_iff.mp named
  rcases (NameTable.assigns_of_assign assigned).given_cases given with old | ⟨-, -, same⟩
  · exact .inl (h key other old)
  · exact .inr same

theorem isKnown_startName (p : Pass) {name other : String}
    (h : p.isKnown other = true ∨ other = name) : (startName name p).isKnown other = true := by
  by_cases pending : p.registry.isInProgress name = true
  · have same : startName name p = p := by simp [startName, Registry.start, pending]
    rw [same]
    rcases h with known | rfl
    · exact known
    · simp [isKnown, pending]
  · have started : (startName name p).registry.inProgress = p.registry.inProgress ++ [name] := by
      simp [startName, Registry.start, pending]
    rw [isKnown, Registry.contains, Registry.isInProgress, schemas_startName, started]
    rcases h with known | rfl
    · rw [isKnown, Registry.isInProgress, Registry.contains] at known
      simp only [Bool.or_eq_true, List.contains_iff_mem, List.mem_append] at known ⊢
      exact known.imp_right .inl
    · simp

/-- A step that does not stop leaves all names known, if they were before. -/
def Settles (p : Pass) (o : Option Stop) (q : Pass) : Prop := o = none → Settled p → Settled q

theorem course_settles : Course Settles where
  refl _ _ := id
  report _ _ _ := id
  trans first second ends start := second ends (first rfl start)

theorem settles_ends {c : Compiler} (hc : ∀ call : Call, call.Takes Settles c)
    {element : Option Element} {t : TypeRef} {scope : Scope} {p q : Pass} {o : Option Stop}
    (ends : c.Ends env element t scope p o q) : Settles p o q := by
  intro answered start
  cases ends with
  | yields answer =>
    cases answer with
    | undeclared => exact start
    | known _ named known =>
      intro key name given
      rcases settled_withNames start named given with old | rfl
      · exact old
      · exact known
    | @built d name names s q _ named _ built =>
      have begun : Settled (startName name (p.withNames names)) := fun key other given =>
        isKnown_startName (p.withNames names) (settled_withNames start named given)
      have body := (course_settles.build fun call _ => hc call).yields built rfl begun
      exact fun key name given => isKnown_withSchema _ _ _ (body key name given)
  | nameless => cases answered
  | refused => cases answered
  | stopped => cases answered

theorem settled_serve (env : Environment) {p : Pass} (start : Settled p) {rs : List Request}
    (answered : ∀ a ∈ (serve env p rs).1, a.isOk = true) : Settled (serve env p rs).2 := by
  have takes (depth : Nat) (call : Call) : call.Takes Settles (Compiler.ofDepth env depth) :=
    course_settles.ofDepth (fun _ => True) (fun _ h => by cases h) (fun _ _ _ => trivial)
      (fun hc _ => settles_ends fun call => hc call trivial) depth trivial
  exact course_settles.serve (fun depth call _ => takes depth call) (fun _ _ _ _ => trivial)
    answered rfl start

/-- As long as every request is answered, no name is abandoned. -/
theorem not_abandoned_of_answered (env : Environment) (rs : List Request)
    (answered : ∀ a ∈ answers env rs, a.isOk = true) (name : String) :
    ¬ Abandoned (after env rs) name := by
  rintro ⟨⟨key, given⟩, missing⟩
  have empty : Settled {} := fun key name h => by cases h
  have known := settled_serve env empty answered key name given
  have unknown : (after env rs).isKnown name = false := by
    simp [isKnown, Registry.isInProgress, idle_after, missing]
  exact Bool.false_ne_true (unknown.symm.trans known)

/-! ### Strict names -/

/-- Two items of one simple name, and two records that hold each other; one of them also holds
an item.  Names that clash are refused. -/
def strictPartners : Environment where
  types := (Universe.initial .standard).insertAll
    [{ name := "com.acme.a.Item" }, { name := "com.acme.b.Item" },
      { name := "com.acme.Owner", members :=
        [{ name := "pet", type := .plain "com.acme.Pet" },
          { name := "item", type := .plain "com.acme.b.Item" }] },
      { name := "com.acme.Pet", members := [{ name := "owner", type := .plain "com.acme.Owner" }] }]
  config := { naming := { duplicates := .error } }

def strictItem (package : String) : Request :=
  { type := .plain ("com.acme." ++ package ++ ".Item") }

def strictOwner : Request := { type := .plain "com.acme.Owner" }

theorem noDangling_strictItem : strictPartners.types.isRefFree = true ∧
    NoDangling (after strictPartners [strictItem "a"]) := by
  have free : strictPartners.types.isRefFree = true := by decide +kernel
  refine ⟨free, noDangling_serve free rfl (fun _ h => by cases h) (fun r hr => ?_) ?_⟩
  · rw [List.mem_singleton.mp hr]
    rfl
  · decide +kernel

/-- A request that is refused at once registers nothing, so that nothing dangles. -/
theorem noDangling_resolve_iff_strictItem :
    (strictPartners.types.isRefFree = true ∧ NoDangling (after strictPartners [strictItem "a"])) ∧
      ((after strictPartners [strictItem "a"]).resolve strictPartners (strictItem "b")).1.isOk =
        false ∧
      NoDangling ((after strictPartners [strictItem "a"]).resolve strictPartners
        (strictItem "b")).2 := by
  obtain ⟨free, closed⟩ := noDangling_strictItem
  refine ⟨⟨free, closed⟩, by decide +kernel, ?_⟩
  refine (noDangling_resolve_iff strictPartners _ (strictItem "b") free closed).mpr ?_
  have grown := ((frame_grows strictPartners).resolve (after strictPartners [strictItem "a"])
    (strictItem "b")).schemas
  have same := grown.eq_of_length (by decide +kernel)
  rw [← same]
  exact fun entry hentry new => absurd hentry new

/-- Where names that clash are refused and no reference is stated, a request that stops leaves
no reference without a schema, if there was none before. -/
def StopsClean (env : Environment) : Prop :=
  env.config.naming.duplicates = .error → env.types.isRefFree = true →
    ∀ rs r, NoDangling (after env rs) → ((after env rs).resolve env r).1.isOk = false →
      NoDangling ((after env rs).resolve env r).2

/-- A registered record with a property that refers to a name without a schema. -/
theorem not_noDangling {p : Pass} (holder property name : String)
    (points : (p.registry.get? holder).bind
      (fun s => (Assoc.get? s.properties property).bind Schema.refName?) = some name)
    (missing : p.registry.contains name = false) : ¬ NoDangling p := by
  intro leads
  obtain ⟨s, hs, hproperty⟩ := Option.bind_eq_some_iff.mp points
  obtain ⟨part, hpart, href⟩ := Option.bind_eq_some_iff.mp hproperty
  have inside : part ∈ s.parts :=
    mem_parts.mpr (.inr (.inl (List.mem_map.mpr ⟨_, Assoc.mem_of_get? hpart, rfl⟩)))
  have registered := ((leads _ (Assoc.mem_of_get? hs)).of_mem_parts inside).of_refName? href
  exact Bool.false_ne_true (missing.symm.trans registered)

/-- The pet is registered before its owner is refused an item. -/
theorem not_stopsClean_strictPartners : ¬ StopsClean strictPartners := by
  intro clean
  obtain ⟨free, closed⟩ := noDangling_strictItem
  have leads := clean rfl free [strictItem "a"] strictOwner closed (by decide +kernel)
  refine not_noDangling "Pet" "owner" "Owner" ?_ ?_ leads
  · decide +kernel
  · decide +kernel

end Pass

end Schemata
