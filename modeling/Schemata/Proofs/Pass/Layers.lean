import Schemata.Proofs.Directive.Effects
import Schemata.Proofs.Pass.Omission
import Schemata.Proofs.Pass.Plain

/-!
# Layers

Schemas are plain until directives are laid over them: those of an element over what is found for
its type, and that of a declaration over what is built for it.  A directive may give the node
that it is laid over a reference or a type of its own, and what the node said before it says
still.  Whatever is not plain about a node goes back to a directive of the place where the node
is.
-/
namespace Schemata

open Pass Schema

/-- The directives that are laid over the nodes at some place. -/
structure Layers where
  all : List Directive := []
  /-- Those that may state the type of a node that was written out for another type. -/
  types : List Directive := []
  /-- Those that are laid over the items of an array. -/
  items : List Directive := []

/-- What the array directive of an element says of the items. -/
def Directives.itemLayers (ds : Directives) : List Directive :=
  ((ds.get? .arraySchema).bind (Directive.section? · "items")).toList

namespace Environment

/-- The layers of an element.  Its schema directive states no other type where it puts a value
type in the place of the type of the element. -/
def elementLayers (env : Environment) (ds : Directives) : Layers where
  all := (ds.get? .schema).toList ++ (ds.get? .arraySchema).toList ++ ds.itemLayers
  types := ((ds.get? .schema).filter fun d => !env.putsValue d).toList
    ++ (ds.get? .arraySchema).toList ++ ds.itemLayers
  items := ds.itemLayers

/-- What a compiler comes to when it lays a directive over a schema. -/
def Lays (env : Environment) (d : Directive) (s t : Schema) : Prop :=
  ∃ depth type p q, Yields ((Compiler.ofDepth env depth).overlay env s d none type) p t q

/-- What a compiler finds for the text of a type. -/
def Finds (env : Environment) (text : String) (s : Schema) : Prop :=
  ∃ depth subject p q, Yields ((Compiler.ofDepth env depth).named? subject text) p (some s) q

end Environment

/-- The layer of a declaration. -/
def Decl.layers (d : Decl) : Layers where
  all := (d.directives.get? .schema).toList
  types := (d.directives.get? .schema).toList

namespace Layers

variable (L : Layers) (env : Environment)

/-- A node is no reference or a pointer, or a directive states its reference, or an array
directive that says more than labels is laid over it while it is a pointer. -/
inductive Refers (s : Schema) : Prop where
  | inline (inline : s.ref = none)
  | pointer (pointer : s.IsPointer)
  | stated {d : Directive} (laid : d ∈ L.all) (states : d.text? "$ref" = s.ref)
  | edited {d : Directive} {reference : Schema} (laid : d ∈ L.items)
      (more : d.isDecoration = false) (pointer : reference.IsPointer)
      (same : s.ref = reference.ref) (edits : env.Lays d reference s)

/-- The structure of a node is that of its type, or a directive states the type, or an array
directive names a type for the items. -/
inductive Typed (s : Schema) : Prop where
  | fits (fits : s.Fits)
  | stated {d : Directive} {type : SchemaType} (laid : d ∈ L.types)
      (states : d.statedType? = some type) (typed : s.type = some type)
  | items {d : Directive} {text : String} {item : Schema} (laid : d ∈ L.items)
      (names : d.text? "implementation" = some text) (found : env.Finds text item)
      (items : s.items = some item) (fits : s.FitsProperties)

structure Node (s : Schema) : Prop where
  refers : L.Refers env s
  typed : L.Typed env s

/-- A node that has no reference but one that a directive states. -/
def IsLoose (s : Schema) : Prop := s.ref = none ∨ ∃ d ∈ L.all, d.text? "$ref" = s.ref

/-- The structure of a node is that of its type, or a directive states the type. -/
def IsTyped (s : Schema) : Prop :=
  s.Fits ∨ ∃ d ∈ L.types, ∃ type, d.statedType? = some type ∧ s.type = some type

/-- A node over which no array directive was laid. -/
structure Open (s : Schema) : Prop where
  loose : L.IsLoose s
  typed : L.IsTyped s
  parts {part : Schema} : part ∈ s.parts → Everywhere (L.Node env) part

/-- A node over which all directives of an element may have been laid. -/
structure Bound (s : Schema) : Prop where
  loose : L.IsLoose s
  typed : L.Typed env s
  parts {part : Schema} : part ∈ s.parts → Everywhere (L.Node env) part

variable {L env} {s t : Schema} {d : Directive}

/-! ### Nodes -/

theorem Node.of_isPlain (h : s.IsPlain) : L.Node env s := by
  refine ⟨?_, .fits h.fits⟩
  cases href : s.ref with
  | none => exact .inline href
  | some path => exact .pointer (h.pointer (by rw [isRef, href]; rfl))

theorem everywhere_of_plainly (h : Plainly s) : Everywhere (L.Node env) s :=
  h.mono fun _ => Node.of_isPlain

theorem IsLoose.congr (h : L.IsLoose s) (ref : t.ref = s.ref) : L.IsLoose t := by
  rw [IsLoose, ref]
  exact h

theorem IsLoose.refers (h : L.IsLoose s) : L.Refers env s := by
  rcases h with inline | ⟨d, laid, states⟩
  · exact .inline inline
  · exact .stated laid states

theorem IsTyped.congr (h : L.IsTyped s) (type : t.type = s.type)
    (properties : t.properties = s.properties) (items : t.items = s.items) : L.IsTyped t := by
  rw [IsTyped, type]
  exact h.imp_left fun fits => fits.congr type properties items

theorem IsTyped.typed (h : L.IsTyped s) : L.Typed env s := by
  rcases h with fits | ⟨d, laid, type, states, typed⟩
  · exact .fits fits
  · exact .stated laid states typed

theorem Typed.congr (h : L.Typed env s) (type : t.type = s.type)
    (properties : t.properties = s.properties) (items : t.items = s.items) : L.Typed env t := by
  cases h with
  | fits fits => exact .fits (fits.congr type properties items)
  | stated laid states typed => exact .stated laid states (type.trans typed)
  | items laid names found given fits =>
    refine .items laid names found (items.trans given) ?_
    rw [FitsProperties, type, properties]
    exact fits

theorem Open.congr (h : L.Open env s) (ref : t.ref = s.ref) (type : t.type = s.type)
    (properties : t.properties = s.properties) (items : t.items = s.items)
    (parts : t.parts = s.parts) : L.Open env t :=
  ⟨h.loose.congr ref, h.typed.congr type properties items, fun mem => h.parts (parts ▸ mem)⟩

theorem Open.bound (h : L.Open env s) : L.Bound env s := ⟨h.loose, h.typed.typed, h.parts⟩

theorem Bound.congr (h : L.Bound env s) (ref : t.ref = s.ref) (type : t.type = s.type)
    (properties : t.properties = s.properties) (items : t.items = s.items)
    (parts : t.parts = s.parts) : L.Bound env t :=
  ⟨h.loose.congr ref, h.typed.congr type properties items, fun mem => h.parts (parts ▸ mem)⟩

theorem Bound.everywhere (h : L.Bound env s) : Everywhere (L.Node env) s :=
  everywhere_iff.mpr ⟨⟨h.loose.refers, h.typed⟩, fun _ => h.parts⟩

theorem Open.of_plainly (h : Plainly s) (inline : s.isRef = false) : L.Open env s where
  loose := .inl (by simpa [isRef] using inline)
  typed := .inl h.own.fits
  parts mem := everywhere_of_plainly (h.of_mem_parts mem)

/-! ### Laying directives over nodes -/

section

variable {P : Schema → Prop}

theorem IsLoose.overlaid (h : L.IsLoose s) (laid : d ∈ L.all) (effect : s.Overlaid P d t) :
    L.IsLoose t := by
  have ref := effect.ref
  cases hstated : d.text? "$ref" with
  | some path =>
    rw [hstated] at ref
    exact .inr ⟨d, laid, hstated.trans ref.symm⟩
  | none =>
    rw [hstated, Option.none_or] at ref
    exact h.congr ref

/-- A type that is not stated is kept, and any type is that of a node without properties and
items. -/
theorem IsTyped.overlaid (h : L.IsTyped s)
    (laid : d ∈ L.types ∨ s.properties = [] ∧ s.items = none) (effect : s.Overlaid P d t) :
    L.IsTyped t := by
  have type := effect.type
  rcases laid with laid | ⟨noProperties, noItems⟩
  · cases hstated : d.statedType? with
    | some stated =>
      rw [hstated] at type
      exact .inr ⟨d, laid, stated, hstated, type⟩
    | none =>
      rw [hstated, Option.none_or] at type
      exact h.congr type effect.properties effect.items
  · exact .inl (.bare (effect.properties.trans noProperties) (effect.items.trans noItems))

end

theorem Open.overlaid (h : L.Open env s) (laid : d ∈ L.all)
    (types : d ∈ L.types ∨ s.properties = [] ∧ s.items = none) (effect : s.Overlaid Plainly d t) :
    L.Open env t where
  loose := h.loose.overlaid laid effect
  typed := h.typed.overlaid types effect
  parts mem := (effect.parts mem).elim h.parts everywhere_of_plainly

variable {depth : Nat} {type : TypeRef} {element : Option Element} {p q : Pass}

theorem overlaid_of_yields
    (h : Yields ((Compiler.ofDepth env depth).overlay env s d element type) p t q) :
    s.Overlaid Plainly d t :=
  (Compiler.gives_ofDepth (compositional_plainly env.types) depth).overlay
    (compositional_plainly env.types) h

/-- A directive that is laid over plain items states their reference, or leaves a pointer as it
is, or edits it. -/
theorem everywhere_items (plain : Plainly s) (laid : d ∈ L.all ∧ d ∈ L.types ∧ d ∈ L.items)
    (hm : Yields ((Compiler.ofDepth env depth).overlay env s d none type) p t q) :
    Everywhere (L.Node env) t := by
  have effect := overlaid_of_yields hm
  have refers : L.Refers env t := by
    have ref := effect.ref
    cases hstated : d.text? "$ref" with
    | some path =>
      rw [hstated] at ref
      exact .stated laid.1 (hstated.trans ref.symm)
    | none =>
      rw [hstated, Option.none_or] at ref
      cases href : s.ref with
      | none => exact .inline (ref.trans href)
      | some path =>
        have pointer := plain.own.pointer (by rw [isRef, href]; rfl)
        cases more : d.isDecoration with
        | true =>
          obtain ⟨_, rfl⟩ := Compiler.overlay_of_isDecoration more hm
          exact .pointer pointer
        | false => exact .edited laid.2.2 more pointer ref ⟨depth, type, p, q, hm⟩
  have typed : L.IsTyped t := IsTyped.overlaid (.inl plain.own.fits) (.inl laid.2.1) effect
  refine everywhere_iff.mpr ⟨⟨refers, typed.typed⟩, fun part mem => everywhere_of_plainly ?_⟩
  exact (effect.parts mem).elim plain.of_mem_parts id

theorem Open.withItem (h : L.Open env s) {item : Schema} (value : Everywhere (L.Node env) item)
    (typed : L.Typed env { s with items := some item }) :
    L.Bound env { s with items := some item } where
  loose := h.loose.congr rfl
  typed := typed
  parts mem := by
    rw [mem_parts] at mem
    rcases mem with new | old
    · cases new
      exact value
    · exact h.parts (mem_parts.mpr (.inr old))

theorem Open.overlayItems (h : L.Open env s) (plain : ∀ item, s.items = some item → Plainly item)
    (laid : d ∈ L.all ∧ d ∈ L.types ∧ d ∈ L.items)
    (hm : Yields ((Compiler.ofDepth env depth).overlayItems env s d type) p t q) :
    L.Bound env t := by
  cases Compiler.overlaysItems_of_yields hm with
  | @replaced text found _ names named =>
    cases found with
    | none => exact h.bound.congr rfl rfl rfl rfl rfl
    | some item =>
      have given : Plainly item :=
        (Compiler.gives_ofDepth (compositional_plainly env.types) depth).named?
          (compositional_plainly env.types) named
      refine h.withItem (everywhere_of_plainly given) ?_
      rcases h.typed with fits | ⟨d, laid, type, states, typed⟩
      · exact .items laid.2.2 names ⟨depth, _, p, _, named⟩ rfl fits.properties
      · exact .stated laid states typed
  | absent => exact h.bound
  | @changed current _ _ before overlaid =>
    refine h.withItem (everywhere_items (plain current before) laid overlaid) ?_
    rcases h.typed with fits | ⟨d, laid, type, states, typed⟩
    · refine .fits ⟨fits.properties, fun lacks => ?_⟩
      cases before.symm.trans (fits.items lacks)
    · exact .stated laid states typed

/-! ### The directives of an element -/

variable {ds : Directives}

theorem mem_schema (env : Environment) (hd : ds.get? .schema = some d) :
    d ∈ (env.elementLayers ds).all := by
  simp [Environment.elementLayers, hd]

/-- A schema directive that states no other type puts a value type in place. -/
theorem mem_types (env : Environment) (hd : ds.get? .schema = some d) :
    d ∈ (env.elementLayers ds).types ∨ env.putsValue d = true := by
  cases put : env.putsValue d with
  | true => exact .inr rfl
  | false => exact .inl (by simp [Environment.elementLayers, hd, put])

theorem mem_arraySchema (env : Environment) (hd : ds.get? .arraySchema = some d) :
    d ∈ (env.elementLayers ds).all ∧ d ∈ (env.elementLayers ds).types := by
  constructor <;> simp [Environment.elementLayers, hd]

theorem mem_items (env : Environment) (hd : ds.get? .arraySchema = some d) {items : Directive}
    (hitems : d.section? "items" = some items) :
    items ∈ (env.elementLayers ds).all ∧ items ∈ (env.elementLayers ds).types ∧
      items ∈ (env.elementLayers ds).items := by
  have mem : items ∈ ds.itemLayers := by simp [Directives.itemLayers, hd, hitems]
  exact ⟨List.mem_append_right _ mem, List.mem_append_right _ mem, mem⟩

theorem Open.overlayArray (h : (env.elementLayers ds).Open env s)
    (plain : ∀ item, s.items = some item → Plainly item) (hd : ds.get? .arraySchema = some d)
    (hm : Yields ((Compiler.ofDepth env depth).overlayArray env s d type) p t q) :
    (env.elementLayers ds).Bound env t := by
  obtain ⟨s', _, overlaid, hm⟩ := yields_bind.mp hm
  have effect := overlaid_of_yields overlaid
  have laid := mem_arraySchema env hd
  have counted (f : Facets) : (env.elementLayers ds).Open env { s' with facets := f } :=
    (h.overlaid laid.1 (.inl laid.2) effect).congr rfl rfl rfl rfl rfl
  split at hm
  · obtain ⟨rfl, -⟩ := yields_pure.mp hm
    exact (counted _).bound
  · rename_i items hitems
    refine (counted _).overlayItems (fun item hitem => ?_) (mem_items env hd hitems) hm
    exact plain item (effect.items ▸ hitem)

variable {e : Element}

/-- Whatever the directives of an element are laid over, if its items are plain. -/
theorem Open.overlayAll (h : (env.elementLayers e.directives).Open env s)
    (plain : ∀ item, s.items = some item → Plainly item) (suits : env.Suits e s)
    {target : ConstraintTarget} {fallback : List Schema}
    (hm : Yields ((Compiler.ofDepth env depth).overlayAll env s e type target fallback) p t q) :
    (env.elementLayers e.directives).Bound env t := by
  obtain ⟨s₁, _, s₂, _, stated, array, _, -, rfl, -⟩ := Compiler.yields_overlayAll.mp hm
  have first : (env.elementLayers e.directives).Open env s₁ ∧ s₁.items = s.items := by
    rcases Compiler.overlayStated_cases stated with ⟨d, hd, stated⟩ | ⟨-, rfl, -⟩
    · have effect := overlaid_of_yields stated
      have types := (mem_types env hd).imp_right (suits d hd)
      exact ⟨h.overlaid (mem_schema env hd) types effect, effect.items⟩
    · exact ⟨h, rfl⟩
  have second : (env.elementLayers e.directives).Bound env s₂ := by
    rcases Compiler.overlayStatedArray_cases array with ⟨d, hd, array⟩ | ⟨-, rfl, -⟩
    · exact first.1.overlayArray (fun item hitem => plain item (first.2 ▸ hitem)) hd array
    · exact first.1.bound
  exact second.congr rfl rfl rfl rfl rfl

theorem Bound.nullableIf (h : L.Bound env s) (nullable : Bool) :
    L.Bound env (s.nullableIf nullable) := by
  cases nullable
  · exact h
  · exact h.congr rfl rfl rfl rfl rfl

/-- What is laid over a reference stands beside it, with all its directives. -/
theorem everywhere_compose (plain : Plainly s) (h : L.Bound env t) (e : Element)
    (nullable : Bool) : Everywhere (L.Node env) (s.compose t e nullable) := by
  unfold Schema.compose
  split
  · cases nullable
    · exact everywhere_of_plainly plain
    · exact everywhere_of_plainly (plain.of_same (plain.own.labelled _) rfl)
  · have inner : L.Bound env t.innerPart := by
      refine ⟨h.loose.congr rfl, ?_, h.parts⟩
      by_cases object : t.isPlainObject = true
      · exact .fits (.untyped (if_pos object))
      · exact h.typed.congr (if_neg object) rfl rfl
    refine everywhere_iff.mpr ⟨⟨.inline rfl, .fits (.bare rfl rfl)⟩, fun part mem => ?_⟩
    have cases : part = s ∨ part = t.innerPart := by simpa [mem_parts] using mem
    rcases cases with rfl | rfl
    · exact everywhere_of_plainly plain
    · exact inner.everywhere

/-- What the directives of an element are bound to. -/
theorem everywhere_bind (plain : Plainly s) (suits : env.Suits e s) {nullable : Bool}
    (hm : Yields ((Compiler.ofDepth env depth).bind env e type s nullable) p t q) :
    Everywhere ((env.elementLayers e.directives).Node env) t := by
  cases isRef : s.isRef with
  -- The directives are laid over an empty schema, which suits all of them.
  | true =>
    obtain ⟨overlay, overlaid, rfl⟩ := (Compiler.yields_bind_of_isRef isRef).mp hm
    have empty : (env.elementLayers e.directives).Open env {} := by
      refine .of_plainly (.of_leaf (.inline rfl (.untyped rfl)) rfl) rfl
    have bound := empty.overlayAll (fun item hitem => by cases hitem) (fun _ _ _ => ⟨rfl, rfl⟩)
      overlaid
    exact everywhere_compose plain bound e _
  | false =>
    obtain ⟨bound, overlaid, rfl⟩ := (Compiler.yields_bind_of_not_isRef isRef).mp hm
    have start : (env.elementLayers e.directives).Open env s := .of_plainly plain isRef
    have items (item : Schema) (hitem : s.items = some item) : Plainly item :=
      plain.of_mem_parts (mem_parts.mpr (.inl hitem))
    have labelled (l : Labels) :
        (env.elementLayers e.directives).Bound env { bound with labels := l } :=
      (start.overlayAll items suits overlaid).congr rfl rfl rfl rfl rfl
    exact ((labelled _).nullableIf _).everywhere

end Layers

end Schemata
