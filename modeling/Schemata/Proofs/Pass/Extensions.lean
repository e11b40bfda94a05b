import Schemata.Proofs.Directive.Extensions
import Schemata.Proofs.Pass.Nodes

/-!
# Extensions of nodes

What is written out for a type has no extensions.  Directives that are laid over a schema add
theirs, so that the keys of all extensions in a pass are among those that the directives state.
-/
namespace Schemata

open Pass Schema

namespace Schema

/-- The keys of the extensions of a node are among some. -/
def ExtendsBy (K : String → Prop) (s : Schema) : Prop :=
  ∀ key ∈ Assoc.keys s.facets.extensions, K key

variable {K : String → Prop} {N : Schema → Prop} {s t : Schema}

theorem ExtendsBy.of_bare (bare : s.facets.extensions = []) : s.ExtendsBy K := by
  intro key hkey
  rw [bare] at hkey
  cases hkey

theorem ExtendsBy.congr (h : s.ExtendsBy K) (same : t.facets.extensions = s.facets.extensions) :
    t.ExtendsBy K := by
  rw [ExtendsBy, same]
  exact h

theorem Everywhere.of_parts (h : Everywhere N s) (own : N t)
    (parts : ∀ part ∈ t.parts, part ∈ s.parts ∨ Everywhere N part) : Everywhere N t :=
  everywhere_iff.mpr ⟨own, fun part mem => (parts part mem).elim h.of_mem_parts id⟩

/-- What is written out for an occurrence has no extensions. -/
theorem holdsWritten_extendsBy (K : String → Prop) : HoldsWritten (ExtendsBy K) where
  reference _ := .of_bare rfl
  labelled _ h := h
  value _ _ bare := .of_bare bare
  constrained {s} target ds _ h := h.congr (s.extensions_constrained target ds)
  composition _ := .of_bare rfl
  array _ := .of_bare rfl
  object _ _ := .of_bare rfl

end Schema

/-! ### Laying directives over schemas -/

namespace Compiler

variable {c : Compiler} {env : Environment} {element : Option Element} {type : TypeRef}
  {p q : Pass} {s t : Schema} {d : Directive}

/-- Facets are overlaid and literals read, the extensions that the directive states are added, and
the types that it names make a difference to discriminators only. -/
theorem facets_overlay (hm : Yields (c.overlay env s d element type) p t q) :
    ∃ discriminator, t.facets =
      { ((s.facets.overlaid d).withLiterals d
          (literalType env.types p.registry
            [(s.overlaid d (!(element.any Element.isMember)) (subjectOf element type)).1] type)
          (subjectOf element type)).1 with
        discriminator := discriminator
        extensions := ((d.section? "extensions").getD []).foldl
          (fun m e => Assoc.insert m e.1 e.2) s.facets.extensions } := by
  obtain ⟨discriminator, _, _, _, _, _, -, rfl⟩ := exists_of_overlay hm
  exact ⟨discriminator, rfl⟩

/-- A directive adds the extensions that it states, and nothing else does. -/
theorem extensions_overlay (hm : Yields (c.overlay env s d element type) p t q) :
    t.facets.extensions = ((d.section? "extensions").getD []).foldl
      (fun m e => Assoc.insert m e.1 e.2) s.facets.extensions := by
  obtain ⟨_, same⟩ := facets_overlay hm
  rw [same]

variable {K : String → Prop} {depth : Nat}

theorem everywhere_overlay (h : Everywhere (ExtendsBy K) s) (states : ∀ key ∈ d.extensionKeys, K key)
    (hm : Yields ((ofDepth env depth).overlay env s d element type) p t q) :
    Everywhere (ExtendsBy K) t := by
  have compositional := (holdsWritten_extendsBy K).compositional env.types
  have effect := (gives_ofDepth compositional depth).overlay compositional hm
  refine h.of_parts (fun key hkey => ?_) fun _ mem => effect.parts mem
  rw [extensions_overlay hm] at hkey
  exact (Assoc.mem_keys_foldl_insert hkey).elim (h.own key) (states key)

theorem everywhere_overlayItems (h : Everywhere (ExtendsBy K) s)
    (states : ∀ key ∈ d.extensionKeys, K key)
    (hm : Yields ((ofDepth env depth).overlayItems env s d type) p t q) :
    Everywhere (ExtendsBy K) t := by
  have withItem {item : Schema} (value : Everywhere (ExtendsBy K) item) :
      Everywhere (ExtendsBy K) { s with items := some item } := by
    refine h.of_parts h.own fun part mem => ?_
    rw [mem_parts] at mem ⊢
    rcases mem with new | old
    · cases new
      exact .inr value
    · exact .inl (.inr old)
  cases overlaysItems_of_yields hm with
  | @replaced _ found _ _ named =>
    cases found with
    | none => exact h.of_same h.own rfl
    | some item =>
      have compositional := (holdsWritten_extendsBy K).compositional env.types
      exact withItem ((gives_ofDepth compositional depth).named? compositional named)
  | absent => exact h
  | changed present overlaid =>
    have inner := h.of_mem_parts (mem_parts.mpr (.inl present))
    exact withItem (everywhere_overlay inner states overlaid)

/-- An array directive adds its own extensions and those that it states for the items. -/
theorem everywhere_overlayArray (h : Everywhere (ExtendsBy K) s)
    (states : ∀ key, key ∈ d.extensionKeys ∨ key ∈ d.itemKeys → K key)
    (hm : Yields ((ofDepth env depth).overlayArray env s d type) p t q) :
    Everywhere (ExtendsBy K) t := by
  obtain ⟨s', _, overlaid, hm⟩ := yields_bind.mp hm
  have own := everywhere_overlay h (fun key hkey => states key (.inl hkey)) overlaid
  have counted (f : Facets) (same : f.extensions = s'.facets.extensions) :
      Everywhere (ExtendsBy K) { s' with facets := f } := own.of_same (own.own.congr same) rfl
  split at hm
  · obtain ⟨rfl, -⟩ := yields_pure.mp hm
    exact counted _ rfl
  · rename_i items hitems
    refine everywhere_overlayItems (counted _ ?_) (fun key hkey => states key (.inr ?_)) hm
    · rfl
    · exact Directive.mem_itemKeys.mpr ⟨items, Directive.section?_eq_some_iff.mp hitems, hkey⟩

end Compiler

/-! ### Directives of elements and declarations -/

/-- All keys of extensions that the directives state are among some. -/
structure Directives.Extend (K : String → Prop) (ds : Directives) : Prop where
  schema {d : Directive} : ds.get? .schema = some d → ∀ key ∈ d.extensionKeys, K key
  array {d : Directive} : ds.get? .arraySchema = some d →
    ∀ key, key ∈ d.extensionKeys ∨ key ∈ d.itemKeys → K key

namespace Compiler

variable {env : Environment} {type : TypeRef} {p q : Pass} {s t : Schema} {K : String → Prop}
  {depth : Nat} {e : Element}

theorem everywhere_overlayAll (h : Everywhere (ExtendsBy K) s) (states : e.directives.Extend K)
    {target : ConstraintTarget} {fallback : List Schema}
    (hm : Yields ((ofDepth env depth).overlayAll env s e type target fallback) p t q) :
    Everywhere (ExtendsBy K) t := by
  obtain ⟨s₁, _, s₂, _, stated, array, _, -, rfl, -⟩ := yields_overlayAll.mp hm
  have first : Everywhere (ExtendsBy K) s₁ := by
    rcases overlayStated_cases stated with ⟨d, hd, stated⟩ | ⟨-, rfl, -⟩
    · exact everywhere_overlay h (states.schema hd) stated
    · exact h
  have second : Everywhere (ExtendsBy K) s₂ := by
    rcases overlayStatedArray_cases array with ⟨d, hd, array⟩ | ⟨-, rfl, -⟩
    · exact everywhere_overlayArray first (states.array hd) array
    · exact first
  exact second.of_same (second.own.congr (s₂.extensions_constrained target e.directives)) rfl

/-- What is laid over a reference stands beside it. -/
theorem everywhere_compose (reference : Everywhere (ExtendsBy K) s)
    (h : Everywhere (ExtendsBy K) t) (e : Element) (nullable : Bool) :
    Everywhere (ExtendsBy K) (s.compose t e nullable) := by
  unfold Schema.compose
  split
  · cases nullable
    · exact reference
    · exact reference.of_same reference.own rfl
  · refine everywhere_iff.mpr ⟨.of_bare rfl, fun part mem => ?_⟩
    have cases : part = s ∨ part = t.innerPart := by simpa [mem_parts] using mem
    rcases cases with rfl | rfl
    · exact reference
    · exact h.of_same h.own rfl

theorem everywhere_bind (h : Everywhere (ExtendsBy K) s) (states : e.directives.Extend K)
    {nullable : Bool} (hm : Yields ((ofDepth env depth).bind env e type s nullable) p t q) :
    Everywhere (ExtendsBy K) t := by
  cases isRef : s.isRef with
  | true =>
    obtain ⟨overlay, overlaid, rfl⟩ := (yields_bind_of_isRef isRef).mp hm
    have empty : Everywhere (ExtendsBy K) {} := .of_leaf (.of_bare rfl) rfl
    exact everywhere_compose h (everywhere_overlayAll empty states overlaid) e _
  | false =>
    obtain ⟨bound, overlaid, rfl⟩ := (yields_bind_of_not_isRef isRef).mp hm
    have laid := everywhere_overlayAll h states overlaid
    unfold Schema.nullableIf
    split
    · exact laid.of_same laid.own rfl
    · exact laid.of_same laid.own rfl

/-! ### Definitions -/

variable {owner : Decl} {bindings : Bindings} {scope : Scope} {parent : Schema}

theorem everywhere_addMember {m : Member} (h : Everywhere (ExtendsBy K) parent)
    (states : m.directives.Extend K) (registers : q.Registers (Everywhere (ExtendsBy K)))
    (hm : Yields ((ofDepth env depth).addMember env owner bindings scope parent m) p s q) :
    Everywhere (ExtendsBy K) s := by
  have compositional := (holdsWritten_extendsBy K).compositional env.types
  cases yields_addMember.mp hm with
  | hidden => exact h
  | omitted => exact h
  -- The properties of an unwrapped member are nodes of schemas that are registered by now.
  | @unwrapped d found _ visible unwraps resolved =>
    have given := (gives_ofDepth compositional depth).resolve resolved
    obtain ⟨_, _, same⟩ := exists_inlined parent q.registry d found.schema
    refine h.of_parts (h.own.congr (by rw [same])) fun part mem => ?_
    refine (mem_parts_inlined mem).imp_right ?_
    rintro ⟨property, hproperty, rfl⟩
    exact given.of_mem_allProperties registers hproperty
  | own visible whole resolved bound =>
    have given := (gives_ofDepth compositional depth).resolve resolved
    refine h.of_parts h.own fun part mem => (mem_parts_addProperty mem).imp_right ?_
    rintro rfl
    exact everywhere_bind given states bound

theorem everywhere_addMembers {ms : List Member} (h : Everywhere (ExtendsBy K) parent)
    (states : ∀ m ∈ ms, m.directives.Extend K) (registers : q.Registers (Everywhere (ExtendsBy K)))
    (hm : Yields (ms.foldlM ((ofDepth env depth).addMember env owner bindings scope) parent) p s q) :
    Everywhere (ExtendsBy K) s := by
  refine keeps_addMembers ((frame_grows env).ofDepth depth) (fun hm before added grows => ?_) hm h
  exact everywhere_addMember before (states _ hm) (registers.earlier grows) added

theorem everywhere_recordStart
    (hm : Yields ((ofDepth env depth).recordStart env owner bindings scope) p s q) :
    Everywhere (ExtendsBy K) s := by
  refine keeps_recordStart (fun h defined => ?_) hm (.of_leaf (.of_bare rfl) rfl)
    (.of_leaf (.of_bare rfl) rfl)
  have compositional := (holdsWritten_extendsBy K).compositional env.types
  refine h.of_parts h.own fun part mem => (mem_parts_addAllOf mem).imp_right ?_
  rintro rfl
  exact (gives_ofDepth compositional depth).define defined

theorem everywhere_settled (h : Everywhere (ExtendsBy K) s) : Everywhere (ExtendsBy K) s.settled := by
  have own : Everywhere (ExtendsBy K) s.ownPart :=
    everywhere_iff.mpr ⟨.of_bare rfl, fun _ mem => h.of_mem_parts (mem_parts_of_ownPart mem)⟩
  have same : s.settled.facets = s.facets := by
    rcases exists_settled s with same | ⟨_, _, _, same⟩ <;> rw [same]
  refine h.of_parts (h.own.congr (by rw [same])) fun part mem => (mem_parts_settled mem).imp_right ?_
  rintro rfl
  exact own

theorem everywhere_declaredSchema (states : ∀ m ∈ owner.members, m.directives.Extend K)
    (registers : q.Registers (Everywhere (ExtendsBy K)))
    (hm : Yields ((ofDepth env depth).declaredSchema env owner type scope) p s q) :
    Everywhere (ExtendsBy K) s := by
  rcases declaredSchema_cases hm with ⟨-, rfl⟩ | ⟨-, start, _, s', started, added, rfl⟩
  · exact .of_leaf (.of_bare rfl) rfl
  · exact everywhere_settled
      (everywhere_addMembers (everywhere_recordStart started) states registers added)

theorem everywhere_build
    (own : ∀ d, owner.directives.get? .schema = some d → ∀ key ∈ d.extensionKeys, K key)
    (states : ∀ m ∈ owner.members, m.directives.Extend K)
    (registers : q.Registers (Everywhere (ExtendsBy K)))
    (hm : Yields ((ofDepth env depth).build env owner type scope) p s q) :
    Everywhere (ExtendsBy K) s := by
  obtain ⟨s', p', declared, hm⟩ := yields_bind.mp hm
  rcases overlayOwn_cases hm with ⟨-, rfl, rfl⟩ | ⟨directive, laid, stated, overlaid, rfl, grows⟩
  · exact everywhere_declaredSchema states registers declared
  · have bare := everywhere_declaredSchema states (registers.earlier grows) declared
    have whole := everywhere_overlay bare (own directive stated) overlaid
    unfold Schema.completed
    split
    · exact whole.of_same whole.own rfl
    · exact whole

end Compiler

/-! ### Passes -/

/-- All keys of extensions that the schema directives of declarations and the directives of their
members and of the elements of requests state are among some. -/
structure Environment.Extend (K : String → Prop) (env : Environment) (rs : List Request) :
    Prop where
  declared {d : Decl} {type : TypeRef} : env.types.declOf? type = some d →
    (∀ own, d.directives.get? .schema = some own → ∀ key ∈ own.extensionKeys, K key) ∧
      ∀ m ∈ d.members, m.directives.Extend K
  requested {r : Request} {e : Element} : r ∈ rs → r.element = some e → e.directives.Extend K

theorem Environment.Extend.upholds {K : String → Prop} {env : Environment} {rs : List Request}
    (h : env.Extend K rs) : env.Upholds rs (Everywhere (ExtendsBy K)) where
  plain {_ _ _ _ _ _ found} resolved := by
    have compositional := (holdsWritten_extendsBy K).compositional env.types
    have given := (Compiler.gives_ofDepth compositional _).resolve resolved
    unfold Resolved.outer
    split
    · exact given.of_same given.own rfl
    · exact given
  bound hr he resolved bound := by
    have compositional := (holdsWritten_extendsBy K).compositional env.types
    have given := (Compiler.gives_ofDepth compositional _).resolve resolved
    exact Compiler.everywhere_bind given (h.requested hr he) bound
  built name declared registers built := by
    obtain ⟨own, members⟩ := h.declared declared
    have whole := Compiler.everywhere_build own members registers built
    exact whole.of_same whole.own rfl

/-- All keys of extensions of nodes are stated by directives. -/
theorem Environment.Extend.of_hasNode {K : String → Prop} {env : Environment} {rs : List Request}
    (h : env.Extend K rs) {node : Schema} (has : HasNode env rs node) : node.ExtendsBy K := by
  have empty : Pass.Registers {} (Everywhere (ExtendsBy K)) := fun _ hentry => by cases hentry
  obtain ⟨registered, answered⟩ := h.upholds.serve (List.Subset.refl rs) empty
  rcases has with ⟨entry, hentry, inside⟩ | ⟨s, hs, inside⟩
  · exact registered entry hentry node inside
  · exact answered s hs node inside

end Schemata
