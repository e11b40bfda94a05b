import Schemata.Proofs.Directive.References
import Schemata.Proofs.Pass.Contract
import Schemata.Proofs.Schema.References

/-!
# References lead to registered schemas

While a definition is built, references may point to names that are still in progress.  Seen
from the end of a request all these names are registered, so that after every request of a
pass in which none was stopped each reference leads somewhere.  The only references that a
pass does not make itself are those that a schema directive states.
-/
namespace Schemata

namespace Pass

/-- All registered schemas refer to names in a set. -/
def ReferInto (K : String → Prop) (p : Pass) : Prop :=
  ∀ entry ∈ p.registry.schemas, entry.2.RefersInto K

/-- The end of a request, when the names in a set are known. -/
def knowing (K : String → Prop) : Horizon where
  before q := ∀ name, q.isKnown name = true → K name
  sound := ReferInto K
  earlier grows before name known := before name (grows.isKnown known)
  unfinished before name known := before name (isKnown_withSchema _ _ _ known)
  unchanged same sound := by
    rw [ReferInto, same]
    exact sound

/-- The end of a request, when the names in a set were assigned. -/
def assigning (K : String → Prop) : Horizon where
  before q := ∀ key name, q.names.assigned.get? key = some name → K name
  sound := ReferInto K
  earlier grows before key name given := before key name (grows.assigned given)
  unfinished before := before
  unchanged same sound := by
    rw [ReferInto, same]
    exact sound

/-- Before the horizon all references are among the names in a set, and so are the names that
are assigned and known. -/
structure Horizon.Names (H : Horizon) (K : String → Prop) : Prop where
  sound : H.sound = ReferInto K
  known {q : Pass} {key : String × String} {name : String} : H.before q →
    q.names.assigned.get? key = some name → q.isKnown name = true → K name

theorem knowing_names (K : String → Prop) : (knowing K).Names K :=
  ⟨rfl, fun before _ known => before _ known⟩

theorem assigning_names (K : String → Prop) : (assigning K).Names K :=
  ⟨rfl, fun before given _ => before _ _ given⟩

/-- A schema is found, if any, that refers to known names. -/
def Found (K : String → Prop) (found : Option Schema) : Prop :=
  ∀ s, found = some s → s.RefersInto K

end Pass

open Pass Schema

/-- A compiler whose schemas refer to known names. -/
structure Compiler.Linked (H : Horizon) (K : String → Prop) (c : Compiler) : Prop where
  resolve (element : Option Element) (t : TypeRef) (scope : Scope) :
    Ensures H True (c.resolve element t scope) fun found =>
      ∀ r, found = some r → r.schema.RefersInto K
  define (element : Option Element) (t : TypeRef) (scope : Scope) :
    Ensures H True (c.define element t scope) (Found K)

namespace Compiler.Linked

variable {H : Horizon} {K : String → Prop} {c : Compiler} {env : Environment} {s : Schema}

theorem schema? (hc : c.Linked H K) (t : TypeRef) (scope : Scope) :
    Ensures H True (c.schema? t scope) (Found K) := by
  refine (hc.resolve none t scope).bind fun found => .pure fun h s hs => ?_
  obtain ⟨r, hr, rfl⟩ := Option.map_eq_some_iff.mp hs
  exact (h.2 r hr).outer

theorem named? (hc : c.Linked H K) (subject text : String) :
    Ensures H True (c.named? subject text) (Found K) := by
  unfold Compiler.named?
  split
  · exact hc.schema? _ _
  · exact (Ensures.report _).bind fun _ => .pure fun _ _ hs => by cases hs

theorem allNamed (hc : c.Linked H K) (subject : String) (texts : List String) :
    Ensures H True (c.allNamed subject texts) fun found => ∀ s ∈ found, s.RefersInto K := by
  refine (Ensures.mapM fun text _ => hc.named? subject text).bind fun found => .pure ?_
  intro h s hs
  obtain ⟨entry, hentry, hsome⟩ := List.mem_filterMap.mp hs
  exact h.2 entry hentry s hsome

/-! ### Directives -/

theorem mappedSchemas (hc : c.Linked H K) (subject : String) (entries : List (String × Json))
    (mapping : Assoc String String) :
    Ensures H True (c.mappedSchemas subject entries mapping) fun _ => True := by
  refine Ensures.foldlM (fun mapping entry _ => ?_) fun _ => trivial
  split
  · exact .pure fun _ => trivial
  · apply (hc.named? subject _).always.bind
    intro found
    split <;> exact .pure fun _ => trivial

theorem discriminator? (hc : c.Linked H K) (subject : String) (d : Directive) :
    Ensures H True (c.discriminator? subject d) fun _ => True := by
  unfold Compiler.discriminator?
  split
  · exact (Ensures.report _).bind fun _ => .pure fun _ => trivial
  · exact (hc.mappedSchemas subject _ _).bind fun _ => .pure fun _ => trivial

theorem withDiscriminator (hc : c.Linked H K) (d : Directive) (subject : String) :
    Ensures H (s.RefersInto K) (c.withDiscriminator s d subject) (RefersInto K) := by
  unfold Compiler.withDiscriminator
  split
  · exact .pure id
  · apply (hc.discriminator? subject _).always.bind
    intro _
    exact .pure fun h => h.1.of_same rfl rfl

theorem withAdditional (hc : c.Linked H K) (d : Directive) (subject : String) :
    Ensures H (s.RefersInto K) (c.withAdditional s d subject) (RefersInto K) := by
  unfold Compiler.withAdditional
  split
  · exact .pure fun h => h.withoutAdditional _
  · apply (hc.named? subject _).always.bind
    intro found
    split
    · exact .pure fun h => h.1.withAdditional (h.2 _ rfl)
    · exact .pure fun h => h.1
  · exact .pure id

theorem withNot (hc : c.Linked H K) (d : Directive) (subject : String) :
    Ensures H (s.RefersInto K) (c.withNot s d subject) (RefersInto K) := by
  unfold Compiler.withNot
  split
  · exact .pure id
  · apply (hc.named? subject _).always.bind
    intro found
    exact .pure fun h => h.1.withNot h.2

theorem withAlternatives (hc : c.Linked H K) (d : Directive) (subject : String) :
    Ensures H (s.RefersInto K) (c.withAlternatives s d subject) (RefersInto K) := by
  have named {pre : Prop} (texts : List String) :
      Ensures H pre (c.allNamed subject texts) fun found => ∀ s ∈ found, s.RefersInto K :=
    (hc.allNamed subject texts).always
  apply (named _).bind
  intro all
  apply (named _).bind
  intro any
  apply (named _).bind
  intro one
  exact .pure fun ⟨⟨⟨hs, hall⟩, hany⟩, hone⟩ => hs.withAlternatives hall hany hone

/-- What a directive lays over a schema brings in references to known names only, unless it
states one. -/
theorem overlay (hc : c.Linked H K) (d : Directive) (element : Option Element) (t : TypeRef)
    (free : d.text? "$ref" = none) :
    Ensures H (s.RefersInto K) (c.overlay env s d element t) (RefersInto K) := by
  have start {subject : String} {detached : Bool} {r : Registry} {s₁ s₂ : Schema}
      (hs : s.RefersInto K) (h₁ : s₁ = (s.overlaid d detached subject).1)
      (h₂ : s₂ = (s₁.withLiterals env r d subject t).1) : s₂.RefersInto K := by
    have overlaid : s₁.RefersInto K := by
      refine hs.of_same ?_ (by rw [h₁]; rfl)
      rw [h₁, Schema.overlaid]
      simp only [free, Option.none_or]
    rw [h₂]
    exact overlaid.of_same rfl rfl
  refine (Ensures.noting _).bind fun s₁ => Ensures.get.bind fun p => (Ensures.noting _).bind
    fun s₂ => ?_
  refine ((hc.withDiscriminator d _).under fun h => start h.1.1.1 h.1.1.2 h.2).bind fun s₃ => ?_
  apply ((hc.withAdditional d _).under fun h => h.2.of_same rfl rfl).bind
  intro s₄
  apply ((hc.withNot d _).under fun h => h.2).bind
  intro s₅
  exact (hc.withAlternatives d _).under fun h => h.2

theorem overlayItems (hc : c.Linked H K) (items : Directive) (t : TypeRef)
    (free : items.text? "$ref" = none) :
    Ensures H (s.RefersInto K) (c.overlayItems env s items t) (RefersInto K) := by
  unfold Compiler.overlayItems
  split
  · apply (hc.named? _ _).always.bind
    intro found
    exact .pure fun h => h.1.withItems h.2
  · split
    · exact .pure id
    · rename_i current hitems
      have inside (h : s.RefersInto K) : current.RefersInto K :=
        h.of_mem_parts (mem_parts.mpr (.inl hitems))
      refine ((hc.overlay items none _ free).under inside).bind fun changed => .pure fun h => ?_
      refine h.1.of_parts rfl fun part hpart => ?_
      rw [mem_parts] at hpart ⊢
      simp only [Option.some.injEq] at hpart
      rcases hpart with rfl | hpart
      · exact .inr h.2
      · exact .inl (.inr hpart)

theorem overlayArray (hc : c.Linked H K) (d : Directive) (t : TypeRef) (free : d.isRefFree = true) :
    Ensures H (s.RefersInto K) (c.overlayArray env s d t) (RefersInto K) := by
  refine (hc.overlay d none t (Directive.own_of_isRefFree free)).bind fun s' => ?_
  split
  · exact .pure fun h => h.2.of_same rfl rfl
  · rename_i items hitems
    have itemsFree := Directive.items_of_isRefFree free hitems
    exact (hc.overlayItems items t itemsFree).under fun h => h.2.of_same rfl rfl

theorem overlayAll (hc : c.Linked H K) (e : Element) (t : TypeRef) (target : ConstraintTarget)
    (fallback : List Schema) (free : e.directives.isRefFree = true) :
    Ensures H (s.RefersInto K) (c.overlayAll env s e t target fallback) (RefersInto K) := by
  have stated (s : Schema) :
      Ensures H (s.RefersInto K) (c.overlayStated env s e t) (RefersInto K) := by
    unfold Compiler.overlayStated
    split
    · rename_i d hd
      exact hc.overlay d _ t (Directive.own_of_isRefFree (Directives.schema_of_isRefFree free hd))
    · exact .pure id
  have statedArray (s : Schema) :
      Ensures H (s.RefersInto K) (c.overlayStatedArray env s e t) (RefersInto K) := by
    unfold Compiler.overlayStatedArray
    split
    · rename_i d hd
      exact hc.overlayArray d t (Directives.arraySchema_of_isRefFree free hd)
    · exact .pure id
  apply (stated s).bind
  intro s₁
  apply ((statedArray s₁).under fun h => h.2).bind
  intro s₂
  refine Ensures.get.bind fun p => (Ensures.noting _).bind fun value => .pure ?_
  rintro ⟨⟨⟨_, hs₂⟩, _⟩, _⟩
  exact hs₂.of_same rfl rfl

theorem bind (hc : c.Linked H K) (e : Element) (t : TypeRef) (derived : Schema) (nullable : Bool)
    (free : e.directives.isRefFree = true) :
    Ensures H (derived.RefersInto K) (c.bind env e t derived nullable) (RefersInto K) := by
  apply Ensures.get.bind
  intro p
  dsimp only
  split
  · refine ((hc.overlayAll e t _ _ free).under fun _ => .empty).bind fun s => .pure fun h => ?_
    exact h.1.1.compose h.2 e _
  · refine ((hc.overlayAll e t _ _ free).under fun h => h.1).bind fun s => .pure fun h => ?_
    refine RefersInto.nullableIf ?_ _
    exact h.2.of_same rfl rfl

/-! ### Members and definitions -/

theorem addProperty (hc : c.Linked H K) (into : H.Names K) (owner : Decl) (m : Member) (t : TypeRef)
    (resolved : Resolved) (free : m.directives.isRefFree = true) :
    Ensures H (s.RefersInto K ∧ resolved.schema.RefersInto K)
      (c.addProperty env owner s m t resolved) (RefersInto K) := by
  unfold Compiler.addProperty
  split
  · refine Ensures.get.bind fun p => .pure ?_
    rintro ⟨⟨hs, hresolved⟩, registered⟩
    rw [into.sound] at registered
    exact hs.inlined hresolved registered _
  · apply ((hc.bind (.ofMember owner m) t _ _ free).under fun h => h.2).bind
    intro bound
    refine (Ensures.noting _).bind fun name => .pure ?_
    rintro ⟨⟨⟨hs, _⟩, hbound⟩, _⟩
    exact hs.addProperty name hbound _

theorem addMember (hc : c.Linked H K) (into : H.Names K) (owner : Decl) (bindings : Bindings)
    (scope : Scope) (m : Member) (free : m.directives.isRefFree = true) :
    Ensures H (s.RefersInto K) (c.addMember env owner bindings scope s m) (RefersInto K) := by
  unfold Compiler.addMember
  split
  · apply (hc.resolve _ _ scope).always.bind
    intro found
    split
    · exact .pure fun h => h.1
    · rename_i resolved
      exact (hc.addProperty into owner m _ resolved free).under fun h => ⟨h.1, h.2 resolved rfl⟩
  · exact .pure id

theorem addAncestor (hc : c.Linked H K) (scope : Scope) (t : TypeRef) :
    Ensures H (s.RefersInto K) (c.addAncestor scope s t) (RefersInto K) := by
  apply (hc.define none t scope).always.bind
  intro found
  split
  · exact .pure fun h => h.1.addAllOf (h.2 _ rfl)
  · exact .pure fun h => h.1

theorem recordSchema (hc : c.Linked H K) (into : H.Names K) (d : Decl) (t : TypeRef) (scope : Scope)
    (free : d.isRefFree = true) :
    Ensures H True (c.recordSchema env d t scope) (RefersInto K) := by
  have start :
      Ensures H True (c.recordStart env d (env.types.bindings t) scope) (RefersInto K) := by
    unfold Compiler.recordStart
    split
    · exact .pure fun _ => .of_leaf rfl rfl
    · exact Ensures.foldlM (fun s t _ => (hc.addAncestor scope t).under fun h => h.2)
        fun _ => .empty
  apply start.bind
  intro s
  have members : Ensures H (True ∧ s.RefersInto K)
      (c.addMembers env d (env.types.bindings t) scope s) (RefersInto K) :=
    Ensures.foldlM (fun s m hm => (hc.addMember into d _ scope m
      (Decl.member_of_isRefFree free hm)).under fun h => h.2) fun h => h.2
  exact members.bind fun s' => .pure fun h => h.2.settled

theorem build (hc : c.Linked H K) (into : H.Names K) (d : Decl) (t : TypeRef) (scope : Scope)
    (free : d.isRefFree = true) : Ensures H True (c.build env d t scope) (RefersInto K) := by
  have declared : Ensures H True (c.declaredSchema env d t scope) (RefersInto K) := by
    unfold Compiler.declaredSchema
    split
    · refine (Ensures.noting _).weaken id fun s _ hs => ?_
      rw [hs]
      exact .of_leaf rfl rfl
    · exact hc.recordSchema into d t scope free
  apply declared.bind
  intro s
  unfold Compiler.overlayOwn
  split
  · exact .pure fun h => h.2
  · rename_i directive hd
    have stated := Directives.schema_of_isRefFree (Decl.own_of_isRefFree free) hd
    refine ((hc.overlay directive none t (Directive.own_of_isRefFree stated)).under
      fun h => h.2).bind fun s' => .pure fun h => ?_
    exact h.2.completed env.types t

/-- A definition refers to a name that is known from then on, and what it registers refers to
known names. -/
theorem defines (hc : c.Linked H K) (into : H.Names K) {element : Option Element} {t : TypeRef}
    {scope : Scope} (free : env.types.isRefFree = true) {p q : Pass} {found : Option Schema}
    (h : c.Defines env element t scope p found q) :
    Grows p q ∧ (H.before q → H.sound p → H.sound q ∧ Pass.Found K found) := by
  have frame := frame_grows env
  cases h with
  | undeclared =>
    exact ⟨frame.report p _, fun _ sound =>
      ⟨H.unchanged (p := p) rfl sound, fun _ hs => by cases hs⟩⟩
  | known _ named known =>
    refine ⟨frame.assign named, fun before sound =>
      ⟨H.unchanged (p := p) rfl sound, fun s hs => ?_⟩⟩
    cases hs
    obtain ⟨key, -, given⟩ := NameTable.given_of_compute named
    exact .reference (into.known before given known)
  | built declared named new built =>
    rename_i d name names s q'
    have declFree := Universe.decl_of_isRefFree free declared
    obtain ⟨grows, promise⟩ := hc.build into d t scope declFree _ s q' built
    refine ⟨frame.trans (frame.assign named) (frame.register (d.documented s) new grows),
      fun before sound => ?_⟩
    have start : H.sound (startName name (p.withNames names)) :=
      H.unchanged (p := p) (schemas_startName name _) sound
    obtain ⟨sound', hs⟩ := promise trivial (H.unfinished before) start
    rw [into.sound] at sound' ⊢
    constructor
    · intro entry hentry
      rcases mem_schemas_withSchema hentry with old | rfl
      · exact sound' entry old
      · exact (hs.documented d).of_same rfl rfl
    · intro reference href
      cases href
      obtain ⟨key, -, given⟩ := NameTable.given_of_compute named
      have kept : (q'.withSchema name (d.documented s)).names.assigned.get? key = some name :=
        grows.assigned given
      exact .definedReference (into.known before kept (isKnown_withSchema_self _ _ _)) d _

theorem defined (hc : c.Linked H K) (into : H.Names K) (element : Option Element) (t : TypeRef)
    (scope : Scope) (free : env.types.isRefFree = true) :
    Ensures H True (c.defined env element t scope) (Pass.Found K) := by
  intro p found q h
  obtain ⟨grows, promise⟩ := hc.defines into free (defines_of_yields h)
  exact ⟨grows, fun _ => promise⟩

/-! ### Occurrences and requests -/

theorem argument (hc : c.Linked H K) (arg : TypeRef) (scope : Scope) :
    Ensures H True (c.argument env arg scope) (Found K) := by
  refine (hc.schema? arg scope).bind fun found => .pure fun h s hs => ?_
  obtain ⟨inner, hinner, rfl⟩ := Option.map_eq_some_iff.mp hs
  exact (h.2 inner hinner).withUse _ _

theorem unrolledMap (hc : c.Linked H K) (d : Decl) (key value : TypeRef) (scope : Scope) :
    Ensures H True (c.unrolledMap env d key value scope) (RefersInto K) := by
  refine (hc.define none key scope).bind fun _ => (hc.argument value scope).always.bind
    fun found => (Ensures.noting _).bind fun keys => .pure fun h => ?_
  have hs : (found.getD .object).RefersInto K := by
    cases found with
    | none => exact .of_leaf rfl rfl
    | some s => exact h.1.2 s rfl
  refine RefersInto.withProperties (RefersInto.of_mem_ofList fun entry hentry => ?_)
  obtain ⟨key, _, rfl⟩ := List.mem_map.mp hentry
  exact hs

theorem uniformMap (hc : c.Linked H K) (value : TypeRef) (scope : Scope) :
    Ensures H True (c.uniformMap env value scope) (RefersInto K) := by
  have any : ({ Schema.object with additional := some (.allowed true) }).RefersInto K :=
    .of_leaf rfl rfl
  have object : Schema.object.RefersInto K := .of_leaf rfl rfl
  unfold Compiler.uniformMap
  split
  · exact .pure fun _ => any
  · apply (hc.argument value scope).bind
    intro found
    split
    · exact .pure fun h => object.withAdditional (h.2 _ rfl)
    · exact .pure fun _ => any

theorem map (hc : c.Linked H K) (args : List TypeRef) (scope : Scope) :
    Ensures H True (c.map env args scope) (RefersInto K) := by
  unfold Compiler.map
  split
  · exact .pure fun _ => .of_leaf rfl rfl
  · split
    · exact hc.unrolledMap _ _ _ scope
    · exact hc.uniformMap _ scope

theorem opened (hc : c.Linked H K) (subject : String) (element : Option Element) (t : TypeRef)
    (scope : Scope) : Ensures H True (c.opened env subject element t scope) (Found K) := by
  have items (arg : TypeRef) : Ensures H True
      (c.argument env arg scope >>= fun found => Pure.pure (found.map Schema.array)) (Found K) := by
    refine (hc.argument arg scope).bind fun found => .pure fun h s hs => ?_
    obtain ⟨inner, hinner, rfl⟩ := Option.map_eq_some_iff.mp hs
    exact (h.2 inner hinner).array
  have inline {s : Schema} (h : s.RefersInto K) : Found K (some s) :=
    fun _ hs => Option.some.inj hs ▸ h
  unfold Compiler.opened
  split
  · unfold Compiler.arrayOf
    split
    · exact .pure fun _ => inline (.of_leaf rfl rfl)
    · exact items _
  · exact .pure fun _ => inline ((RefersInto.primitive _).used _ _)
  · exact (hc.map t.args scope).bind fun s => .pure fun h => inline h.2
  · unfold Compiler.collection
    split
    · exact hc.define element t scope
    · split
      · exact .pure fun _ => inline (RefersInto.array (.of_leaf rfl rfl))
      · exact items _
  · exact hc.define element t scope
  · exact hc.define element t scope
  · exact hc.define element t scope
  · exact (Ensures.report _).bind fun _ => .pure fun _ _ hs => by cases hs

theorem occurrence (hc : c.Linked H K) (element : Option Element) (t : TypeRef) (scope : Scope) :
    Ensures H True (c.occurrence env element t scope) fun found =>
      ∀ r, found = some r → r.schema.RefersInto K := by
  refine (Ensures.noting _).bind fun content => (hc.opened _ element _ scope).always.bind
    fun found => .pure fun h r hr => ?_
  obtain ⟨s, hs, rfl⟩ := Option.map_eq_some_iff.mp hr
  exact ((h.2 s hs).describedBy element).streamed _ _ _

theorem request (hc : c.Linked H K) (r : Request) (free : r.isRefFree = true) :
    Ensures H True (c.request env r) (Found K) := by
  apply (hc.resolve r.element r.type r.scope).bind
  intro found
  split
  · exact .pure fun _ _ hs => by cases hs
  · rename_i resolved
    split
    · exact .pure fun h s hs => Option.some.inj hs ▸ (h.2 resolved rfl).outer
    · rename_i e he
      have helement := (Option.filter_eq_some_iff.mp he).1
      have elementFree := Request.element_of_isRefFree free helement
      refine ((hc.bind e r.type _ _ elementFree).under fun h => h.2 resolved rfl).bind
        fun bound => .pure fun h s hs => ?_
      exact Option.some.inj hs ▸ h.2

end Compiler.Linked

/-- A compiler of any depth refers to known names only. -/
theorem Compiler.linked_ofDepth {env : Environment} (free : env.types.isRefFree = true)
    {H : Horizon} {K : String → Prop} (into : H.Names K) (depth : Nat) :
    (Compiler.ofDepth env depth).Linked H K := by
  induction depth with
  | zero => exact ⟨fun _ _ _ => .throw, fun _ _ _ => .throw⟩
  | succ depth ih =>
    exact ⟨fun element t scope => ih.occurrence element t scope,
      fun element t scope => ih.defined into element t scope free⟩

namespace Pass

/-- Every reference of a schema leads to a registered schema. -/
def Leads (r : Registry) (s : Schema) : Prop := s.RefersInto fun name => r.contains name = true

/-- Every reference of every registered schema leads to a registered schema. -/
def NoDangling (p : Pass) : Prop := ∀ entry ∈ p.registry.schemas, Leads p.registry entry.2

/-- After a request that is answered, as before it, every reference leads to a registered
schema. -/
theorem noDangling_resolve {env : Environment} (free : env.types.isRefFree = true) {p : Pass}
    {r : Request} {answer : Option Schema} (hr : r.isRefFree = true)
    (idle : p.registry.inProgress = []) (h : NoDangling p) (answered : (p.resolve env r).1 = .ok answer) :
    NoDangling (p.resolve env r).2 ∧
      ∀ s, answer = some s → Leads (p.resolve env r).2.registry s := by
  have yields : Yields ((Compiler.serving env r.element r.type).request env r) p answer
      (p.resolve env r).2 := Prod.ext answered rfl
  have linked := Compiler.linked_ofDepth free
    (knowing_names fun name => (p.resolve env r).2.registry.contains name = true)
    (Budget.depth env r.element r.type)
  obtain ⟨grows, promise⟩ := linked.request r hr p answer _ yields
  have idle' : (p.resolve env r).2.registry.inProgress = [] := by rw [grows.inProgress, idle]
  refine promise trivial (fun name known => ?_) fun entry hentry => ?_
  · simpa [isKnown, Registry.isInProgress, idle'] using known
  · refine (h entry hentry).mono fun name hname => ?_
    rw [Registry.contains, Assoc.contains_iff_mem_keys] at hname ⊢
    exact (grows.schemas.map Prod.fst).subset hname

/-- So it is after any number of requests that are all answered. -/
theorem noDangling_serve {env : Environment} (free : env.types.isRefFree = true) {p : Pass}
    (idle : p.registry.inProgress = []) (h : NoDangling p) {rs : List Request}
    (hrs : ∀ r ∈ rs, r.isRefFree = true) (answered : ∀ a ∈ (serve env p rs).1, a.isOk = true) :
    NoDangling (serve env p rs).2 := by
  induction rs generalizing p with
  | nil => exact h
  | cons r rest ih =>
    obtain ⟨answer, hanswer⟩ := exists_of_isOk (answered (p.resolve env r).1 List.mem_cons_self)
    have next := (noDangling_resolve free (hrs r List.mem_cons_self) idle h hanswer).1
    have idle' : (p.resolve env r).2.registry.inProgress = [] := by
      rw [((frame_grows env).resolve p r).inProgress, idle]
    exact ih idle' next (fun r' hr' => hrs r' (List.mem_cons_of_mem _ hr'))
      fun a ha => answered a (List.mem_cons_of_mem _ ha)

/-- In a fresh pass whose requests are all answered, every reference of every registered schema
and of every answer leads to a registered schema, after each of the requests. -/
theorem references_lead (env : Environment) (rs : List Request)
    (free : env.types.isRefFree = true) (hrs : ∀ r ∈ rs, r.isRefFree = true)
    (answered : ∀ a ∈ answers env rs, a.isOk = true) (qs : List Request) (r : Request)
    (served : qs ++ [r] <+: rs) :
    NoDangling (after env (qs ++ [r])) ∧
      ∀ s, ((after env qs).resolve env r).1 = .ok (some s) →
        Leads (after env (qs ++ [r])).registry s := by
  obtain ⟨rest, rfl⟩ := served
  have split : answers env (qs ++ [r] ++ rest) =
      answers env qs ++ ((after env qs).resolve env r).1 ::
        (serve env ((after env qs).resolve env r).2 rest).1 := by
    rw [List.append_assoc, answers, serve_append]
    rfl
  have last : after env (qs ++ [r]) = ((after env qs).resolve env r).2 := by
    rw [after, serve_append]
    rfl
  have idle : (after env qs).registry.inProgress = [] :=
    ((frame_grows env).serve {} qs).inProgress
  have before : NoDangling (after env qs) := by
    refine noDangling_serve free rfl (fun _ hentry => by cases hentry) (fun q hq => ?_)
      fun a ha => answered a ?_
    · exact hrs q (by simp [hq])
    · rw [split]
      exact List.mem_append_left _ ha
  obtain ⟨answer, hanswer⟩ := exists_of_isOk
    (answered ((after env qs).resolve env r).1 (by rw [split]; simp))
  have step := noDangling_resolve free (hrs r (by simp)) idle before hanswer
  rw [last]
  refine ⟨step.1, fun s hs => step.2 s ?_⟩
  rw [hanswer] at hs
  exact Except.ok.inj hs

/-- Two records that hold each other. -/
def partners : Environment where
  types := (Universe.initial .standard).insertAll
    [{ name := "com.acme.Owner", members :=
        [{ name := "pets", type := .generic "list" [.plain "com.acme.Pet"] }] },
      { name := "com.acme.Pet", members := [{ name := "owner", type := .plain "com.acme.Owner" }] }]
  config := {}

def ownerRequest : Request := { type := .plain "com.acme.Owner" }

/-- Both records are registered, and each refers to the other. -/
theorem references_lead_partners :
    (partners.types.isRefFree = true ∧ (∀ r ∈ [ownerRequest], r.isRefFree = true) ∧
      ∀ a ∈ answers partners [ownerRequest], a.isOk = true) ∧
    (after partners [ownerRequest]).registry.names = ["Pet", "Owner"] ∧
    NoDangling (after partners [ownerRequest]) := by
  have free : partners.types.isRefFree = true := by decide +kernel
  have hrs : ∀ r ∈ [ownerRequest], r.isRefFree = true := by simp [Request.isRefFree, ownerRequest]
  have answered : ∀ a ∈ answers partners [ownerRequest], a.isOk = true := by decide +kernel
  refine ⟨⟨free, hrs, answered⟩, by decide +kernel, ?_⟩
  exact (references_lead partners [ownerRequest] free hrs answered [] ownerRequest
    (List.prefix_refl _)).1

end Pass

end Schemata
