import Schemata.Proofs.Pass.Contract
import Schemata.Proofs.Pass.Layers
import Schemata.Proofs.Pass.Upheld
import Schemata.Proofs.Universe.Keys

/-!
# The structure of definitions

A record is an object to which the schemas of its members are added, or a composition with its
ancestors.  Its own directive is laid over it last.  Every node of what is registered or answered
is plain, or within what the directives of an element are bound to, or the schema of a declaration
with a directive of its own.
-/
namespace Schemata

open Pass Schema

namespace Environment

/-- All elements: the members of declarations, and what requests are made for. -/
def elements (env : Environment) (rs : List Request) : List Element :=
  env.types.decls.flatMap (fun entry => entry.2.members.map (Element.ofMember entry.2))
    ++ rs.filterMap Request.element

/-- What the directives of an element are bound to, over what is found for its type. -/
def Binds (env : Environment) (e : Element) (s : Schema) : Prop :=
  ∃ depth type scope found nullable p p' q q',
    Yields ((Compiler.ofDepth env depth).resolve (some e) type scope) p (some found) p' ∧
      Yields ((Compiler.ofDepth env depth).bind env e type found.schema nullable) q s q'

/-- What is built for an occurrence of a declared type. -/
def Builds (env : Environment) (d : Decl) (s : Schema) : Prop :=
  ∃ depth type scope p q, env.types.declOf? type = some d ∧
    Yields ((Compiler.ofDepth env depth).build env d type scope) p s q

variable (env : Environment) (rs : List Request)

/-- The place where a node is, with the directives that are laid over the nodes there. -/
inductive Places (node : Schema) : Layers → Prop where
  | written (plain : node.IsPlain) : Places node {}
  | element {e : Element} {whole : Schema} (listed : e ∈ env.elements rs)
      (bound : env.Binds e whole) (inside : Within node whole) :
      Places node (env.elementLayers e.directives)
  | declared {d : Decl} {s : Schema} {name : Option String} (built : env.Builds d s)
      (same : node = { d.documented s with name := name }) : Places node d.layers

/-- Whatever is not plain about a node goes back to the directives of its place. -/
def Accounts (node : Schema) : Prop := ∃ L, env.Places rs node L ∧ L.Node env node

/-- All nodes of all registered schemas are accounted for. -/
def Sound (p : Pass) : Prop := ∀ entry ∈ p.registry.schemas, Everywhere (env.Accounts rs) entry.2

/-- A schema of a declaration without its own directive. -/
structure Bare (s : Schema) : Prop where
  inline : s.ref = none
  items : s.items = none
  fits : s.Fits
  parts {part : Schema} : part ∈ s.parts → Everywhere (env.Accounts rs) part

/-- A record to which members are added. -/
structure Record (s : Schema) : Prop extends env.Bare rs s where
  typed : s.type = none ∨ s.type = some .object

variable {env rs} {s t parent : Schema} {p q : Pass}

theorem everywhere_of_plainly (h : Plainly s) : Everywhere (env.Accounts rs) s :=
  h.mono fun _ plain => ⟨{}, .written plain, .of_isPlain plain⟩

theorem Sound.earlier (h : env.Sound rs q) (grows : Grows p q) : env.Sound rs p :=
  fun entry hentry => h entry (grows.schemas.subset hentry)

theorem mem_elements_member {d : Decl} {m : Member} {type : TypeRef}
    (declared : env.types.declOf? type = some d) (hm : m ∈ d.members) :
    Element.ofMember d m ∈ env.elements rs := by
  obtain ⟨name, -, hget⟩ := Option.bind_eq_some_iff.mp declared
  refine List.mem_append_left _ (List.mem_flatMap.mpr ⟨_, Assoc.mem_of_get? hget, ?_⟩)
  exact List.mem_map_of_mem hm

theorem mem_elements_request {r : Request} {e : Element} (hr : r ∈ rs) (he : r.element = some e) :
    e ∈ env.elements rs :=
  List.mem_append_right _ (List.mem_filterMap.mpr ⟨r, hr, he⟩)

namespace Record

theorem of_typed (inline : s.ref = none) (items : s.items = none)
    (typed : s.type = none ∨ s.type = some .object)
    (parts : ∀ part ∈ s.parts, Everywhere (env.Accounts rs) part) : env.Record rs s where
  inline := inline
  items := items
  fits := typed.elim .untyped fun object => .object object items
  parts mem := parts _ mem
  typed := typed

theorem addProperty (h : env.Record rs s) (name : String) (value : Everywhere (env.Accounts rs) t)
    (required : Bool) : env.Record rs (s.addProperty name t required) := by
  refine .of_typed h.inline h.items h.typed fun part mem => ?_
  rcases mem_parts_addProperty mem with old | rfl
  · exact h.parts old
  · exact value

theorem inlined (h : env.Record rs s) (plain : Plainly t) (sound : env.Sound rs p) (d : Directive) :
    env.Record rs (s.inlined p.registry d t) := by
  have parts (part : Schema) (mem : part ∈ (s.inlined p.registry d t).parts) :
      Everywhere (env.Accounts rs) part := by
    rcases mem_parts_inlined mem with old | ⟨property, hproperty, rfl⟩
    · exact h.parts old
    · exact (everywhere_of_plainly plain).of_mem_allProperties sound hproperty
  obtain ⟨_, _, same⟩ := exists_inlined s p.registry d t
  rw [same] at parts ⊢
  exact .of_typed h.inline h.items h.typed parts

theorem addAllOf (h : env.Record rs s) (reference : Plainly t) :
    env.Record rs (s.addAllOf t) := by
  refine .of_typed h.inline h.items h.typed fun part mem => ?_
  rcases mem_parts_addAllOf mem with old | rfl
  · exact h.parts old
  · exact everywhere_of_plainly reference

/-- Own properties become a part that is an object of its own. -/
theorem settled (h : env.Record rs s) : env.Record rs s.settled := by
  have own : Everywhere (env.Accounts rs) s.ownPart := by
    have plain : IsPlain s.ownPart := .inline rfl (.object rfl rfl)
    refine everywhere_iff.mpr ⟨⟨{}, .written plain, .of_isPlain plain⟩, fun part mem => ?_⟩
    exact h.parts (mem_parts_of_ownPart mem)
  have parts (part : Schema) (mem : part ∈ s.settled.parts) : Everywhere (env.Accounts rs) part := by
    rcases mem_parts_settled mem with old | rfl
    · exact h.parts old
    · exact own
  rcases exists_settled s with same | ⟨_, _, _, same⟩
  · rw [same]
    exact h
  · rw [same] at parts ⊢
    exact .of_typed h.inline h.items (.inr rfl) parts

end Record

/-! ### What is bound and built -/

variable {depth : Nat} {owner : Decl} {bindings : Bindings} {scope : Scope} {type : TypeRef}

theorem plainly_of_resolve {element : Option Element} {found : Resolved}
    (h : Yields ((Compiler.ofDepth env depth).resolve element type scope) p (some found) q) :
    Plainly found.schema :=
  (Compiler.gives_ofDepth (compositional_plainly env.types) depth).resolve h

theorem plainly_of_define {element : Option Element}
    (h : Yields ((Compiler.ofDepth env depth).define element type scope) p (some s) q) :
    Plainly s :=
  (Compiler.gives_ofDepth (compositional_plainly env.types) depth).define h

/-- All nodes of what is bound to an element are accounted for by its directives. -/
theorem everywhere_of_binds {e : Element} (listed : e ∈ env.elements rs) (h : env.Binds e s) :
    Everywhere (env.Accounts rs) s := by
  intro node inside
  refine ⟨_, .element listed h inside, ?_⟩
  obtain ⟨depth, type, scope, found, nullable, p, p', q, q', resolved, bound⟩ := h
  obtain ⟨_, rfl, occurs⟩ := Compiler.yields_resolve_ofDepth resolved
  exact Layers.everywhere_bind (plainly_of_resolve resolved) (Compiler.suits_of_occurrence occurs)
    bound node inside

/-- Members add to the properties of a record, and to nothing else. -/
structure Adds (env : Environment) (rs : List Request) (parent s : Schema) : Prop where
  record : env.Record rs s
  type : s.type = parent.type
  allOf : s.allOf = parent.allOf

theorem adds_of_addMember {m : Member} (listed : Element.ofMember owner m ∈ env.elements rs)
    (h : env.Record rs parent) (sound : env.Sound rs q)
    (hm : Yields ((Compiler.ofDepth env depth).addMember env owner bindings scope parent m) p s q) :
    env.Adds rs parent s := by
  cases Compiler.yields_addMember.mp hm with
  | hidden => exact ⟨h, rfl, rfl⟩
  | omitted => exact ⟨h, rfl, rfl⟩
  -- An unwrapped member takes over nodes of schemas that are registered by now.
  | @unwrapped d found _ visible unwraps resolved =>
    have record := h.inlined (plainly_of_resolve resolved) sound
    obtain ⟨_, _, same⟩ := exists_inlined parent q.registry d found.schema
    exact ⟨record d, by rw [same], allOf_inlined _ _ _ _⟩
  | own visible whole resolved bound =>
    have value := everywhere_of_binds listed ⟨_, _, _, _, _, _, _, _, _, resolved, bound⟩
    exact ⟨h.addProperty _ value _, rfl, rfl⟩

/-- What is registered at the end was sound while the members were added. -/
theorem adds_of_addMembers {ms : List Member}
    (listed : ∀ m ∈ ms, Element.ofMember owner m ∈ env.elements rs) (h : env.Record rs parent)
    (sound : env.Sound rs q)
    (hm : Yields (ms.foldlM ((Compiler.ofDepth env depth).addMember env owner bindings scope)
      parent) p s q) : env.Adds rs parent s := by
  refine Compiler.keeps_addMembers ((frame_grows env).ofDepth depth) (P := env.Adds rs parent)
    (fun hm before added grows => ?_) hm ⟨h, rfl, rfl⟩
  have later := adds_of_addMember (listed _ hm) before.record (sound.earlier grows) added
  exact ⟨later.record, later.type.trans before.type, later.allOf.trans before.allOf⟩

theorem addAllOf_ne_nil (s t : Schema) : (s.addAllOf t).allOf ≠ [] := by
  intro none
  unfold Schema.addAllOf pushNew at none
  dsimp only at none
  split at none
  · rename_i known
    rw [none] at known
    cases known
  · simp at none

/-- Declared ancestors become parts of a composition. -/
theorem record_of_addAncestors {ancestors : List TypeRef}
    (declared : ∀ ancestor ∈ ancestors, ∃ d, env.types.declOf? ancestor = some d)
    (h : env.Record rs parent)
    (hm : Yields (ancestors.foldlM ((Compiler.ofDepth env depth).addAncestor scope) parent) p s q) :
    env.Record rs s ∧ (s.allOf = [] → ancestors = []) ∧ (parent.allOf ≠ [] → s.allOf ≠ []) := by
  induction ancestors generalizing parent p with
  | nil =>
    obtain ⟨rfl, -⟩ := yields_pure.mp hm
    exact ⟨h, fun _ => rfl, id⟩
  | cons ancestor ancestors ih =>
    rw [List.foldlM_cons] at hm
    obtain ⟨next, p', first, rest⟩ := yields_bind.mp hm
    obtain ⟨found, _, defined, first⟩ := yields_bind.mp first
    cases found with
    | none =>
      -- Only an ancestor without a declaration would be left out.
      obtain ⟨d, hd⟩ := declared ancestor List.mem_cons_self
      obtain ⟨_, -, defines⟩ := Compiler.yields_define_ofDepth defined
      cases defines with
      | undeclared unknown => cases unknown.symm.trans hd
    | some reference =>
      obtain ⟨rfl, -⟩ := yields_pure.mp first
      have composed := addAllOf_ne_nil parent reference
      obtain ⟨record, -, kept⟩ := ih (fun a ha => declared a (List.mem_cons_of_mem _ ha))
        (h.addAllOf (plainly_of_define defined)) rest
      exact ⟨record, fun none => absurd none (kept composed), fun _ => kept composed⟩

/-- A record without a type and without ancestors is one that has itself for its only parent. -/
def SaysItsType (u : Universe) (t : TypeRef) (s : Schema) : Prop :=
  s.type = none → s.allOf = [] → u.representation t = (.object, none)

theorem SaysItsType.overlaid {P : Schema → Prop} {u : Universe} {d : Directive}
    (h : SaysItsType u type s) (effect : s.Overlaid P d t) : SaysItsType u type t := by
  intro untyped composed
  have stated := effect.type
  rw [untyped, eq_comm, Option.or_eq_none_iff] at stated
  exact h stated.2 (effect.composed composed)

/-- A schema that says nothing of its type is completed to an object. -/
theorem isTyped_completed {u : Universe} {L : Layers} (typed : L.IsTyped s)
    (items : s.items = none) (own : SaysItsType u type s) : L.IsTyped (s.completed u type) := by
  unfold Schema.completed
  split
  · rename_i untyped
    simp only [Bool.and_eq_true, Option.isNone_iff_eq_none, List.isEmpty_iff] at untyped
    obtain ⟨⟨untyped, composed⟩, -⟩ := untyped
    refine .inl (.object ?_ items)
    rw [own untyped composed]
  · exact typed

theorem ref_completed (u : Universe) (s : Schema) : (s.completed u type).ref = s.ref := by
  unfold Schema.completed
  split <;> rfl

theorem parts_completed (u : Universe) (s : Schema) : (s.completed u type).parts = s.parts := by
  unfold Schema.completed
  split <;> rfl

theorem record_of_recordStart (keyed : env.types.Keyed)
    (declared : env.types.declOf? type = some owner)
    (hm : Yields ((Compiler.ofDepth env depth).recordStart env owner (env.types.bindings type) scope)
      p s q) : env.Record rs s ∧ SaysItsType env.types type s := by
  unfold Compiler.recordStart at hm
  split at hm
  · obtain ⟨rfl, -⟩ := yields_pure.mp hm
    exact ⟨.of_typed rfl rfl (.inr rfl) (fun _ mem => by cases mem), fun untyped => by cases untyped⟩
  · rename_i parents
    have empty : env.Record rs {} := .of_typed rfl rfl (.inl rfl) fun _ mem => by cases mem
    obtain ⟨record, none, -⟩ := record_of_addAncestors
      (fun _ => Universe.declOf?_of_mem_lineageFrom) empty hm
    refine ⟨record, fun _ composed => ?_⟩
    exact keyed.representation_of_lineage_eq_nil declared (none composed) (by simpa using parents)

/-- The schema of a declaration is a record or lists the literals of an enumeration. -/
theorem bare_of_declaredSchema (keyed : env.types.Keyed)
    (declared : env.types.declOf? type = some owner) (sound : env.Sound rs q)
    (hm : Yields ((Compiler.ofDepth env depth).declaredSchema env owner type scope) p s q) :
    env.Bare rs s ∧ SaysItsType env.types type s := by
  rcases Compiler.declaredSchema_cases hm with ⟨-, rfl⟩ | ⟨-, start, _, s', started, added, rfl⟩
  · exact ⟨⟨rfl, rfl, .bare rfl rfl, fun mem => by cases mem⟩, fun untyped => by cases untyped⟩
  · obtain ⟨record, own⟩ : env.Record rs start ∧ SaysItsType env.types type start :=
      record_of_recordStart keyed declared started
    have listed (m : Member) (hm : m ∈ owner.members) : Element.ofMember owner m ∈ env.elements rs :=
      mem_elements_member declared hm
    have added := adds_of_addMembers listed record sound added
    refine ⟨added.record.settled.toBare, fun untyped composed => ?_⟩
    unfold Schema.settled at untyped composed
    split at untyped
    · rename_i inline
      exact own (added.type ▸ untyped) (added.allOf ▸ List.isEmpty_iff.mp inline)
    · split at untyped <;> cases untyped

/-- The directive of a declaration accounts for the schema that is built for it. -/
theorem everywhere_of_builds (name : String) (built : env.Builds owner s)
    (loose : owner.layers.IsLoose s)
    (typed : owner.layers.IsTyped s)
    (parts : ∀ part ∈ s.parts, Everywhere (env.Accounts rs) part) :
    Everywhere (env.Accounts rs) { owner.documented s with name := some name } := by
  have loose : owner.layers.IsLoose { owner.documented s with name := some name } :=
    loose.congr rfl
  have typed : owner.layers.IsTyped { owner.documented s with name := some name } :=
    typed.congr rfl rfl rfl
  exact everywhere_iff.mpr ⟨⟨_, .declared built rfl, loose.refers, typed.typed⟩, parts⟩

theorem everywhere_of_build (name : String) (keyed : env.types.Keyed)
    (declared : env.types.declOf? type = some owner) (sound : env.Sound rs q)
    (hm : Yields ((Compiler.ofDepth env depth).build env owner type scope) p s q) :
    Everywhere (env.Accounts rs) { owner.documented s with name := some name } := by
  have built : env.Builds owner s := ⟨depth, type, scope, p, q, declared, hm⟩
  obtain ⟨s', p', start, hm⟩ := yields_bind.mp hm
  rcases Compiler.overlayOwn_cases hm with
    ⟨-, rfl, rfl⟩ | ⟨directive, laid, stated, overlaid, rfl, grows⟩
  · obtain ⟨bare, -⟩ := bare_of_declaredSchema keyed declared sound start
    exact everywhere_of_builds name built (.inl bare.inline) (.inl bare.fits) fun _ => bare.parts
  -- Types that the directive names are built after the members were added.
  · obtain ⟨bare, own⟩ := bare_of_declaredSchema keyed declared (sound.earlier grows) start
    have effect := Layers.overlaid_of_yields overlaid
    have all : directive ∈ owner.layers.all := Option.mem_toList.mpr stated
    have loose : owner.layers.IsLoose laid := Layers.IsLoose.overlaid (.inl bare.inline) all effect
    have typed : owner.layers.IsTyped laid :=
      Layers.IsTyped.overlaid (.inl bare.fits) (.inl all) effect
    refine everywhere_of_builds name built (loose.congr (ref_completed _ _)) ?_ fun part mem => ?_
    · exact isTyped_completed typed (effect.items.trans bare.items) (own.overlaid effect)
    · rw [parts_completed] at mem
      exact (effect.parts mem).elim bare.parts everywhere_of_plainly

/-! ### Passes -/

/-- What is registered or answered is accounted for at every depth. -/
theorem upholds_accounts (keyed : env.types.Keyed) (rs : List Request) :
    env.Upholds rs (Everywhere (env.Accounts rs)) where
  plain {_ _ _ _ _ _ found} resolved := by
    have plain := plainly_of_resolve resolved
    unfold Resolved.outer
    split
    · exact everywhere_of_plainly (plain.of_same (plain.own.labelled _) rfl)
    · exact everywhere_of_plainly plain
  bound hr he resolved bound :=
    everywhere_of_binds (mem_elements_request hr he) ⟨_, _, _, _, _, _, _, _, _, resolved, bound⟩
  built name declared sound built := everywhere_of_build name keyed declared sound built

theorem sound_serve (keyed : env.types.Keyed) {requests : List Request} (listed : requests ⊆ rs)
    (sound : env.Sound rs p) :
    env.Sound rs (p.serve env requests).2 ∧
      ∀ s, .ok (some s) ∈ (p.serve env requests).1 → Everywhere (env.Accounts rs) s :=
  (upholds_accounts keyed rs).serve listed sound

end Environment

end Schemata
