import Schemata.Proofs.Pass.Structure

/-!
# Nodes

At no depth of what a pass registers or answers does a node that refers to another schema say
anything besides, and nowhere is there structure that values of its type do not have, but for what
the directives of its own place state in so many words or write over the items of an array.
-/
namespace Schemata

open Schema

namespace Environment

variable {env : Environment} {rs : List Request} {node : Schema} {L : Layers}

/-- The layers of all places. -/
def layers (env : Environment) (rs : List Request) : List Layers :=
  env.types.decls.map (fun entry => entry.2.layers)
    ++ (env.elements rs).map fun e => env.elementLayers e.directives

/-- What holds of no layers and of those of all places holds at every place. -/
theorem Places.holds {P : Layers → Prop} (h : env.Places rs node L) (none : P {})
    (all : ∀ L ∈ env.layers rs, P L) : P L := by
  cases h with
  | written => exact none
  | element listed =>
    exact all _ (List.mem_append_right _ (List.mem_map.mpr ⟨_, listed, rfl⟩))
  | declared built =>
    obtain ⟨_, _, _, _, _, declared, -⟩ := built
    obtain ⟨name, -, hget⟩ := Option.bind_eq_some_iff.mp declared
    exact all _ (List.mem_append_left _ (List.mem_map.mpr ⟨_, Assoc.mem_of_get? hget, rfl⟩))

end Environment

namespace Pass

/-- A node of a registered schema or of an answer, at whatever depth. -/
def HasNode (env : Environment) (rs : List Request) (node : Schema) : Prop :=
  (∃ entry ∈ (after env rs).registry.schemas, Within node entry.2) ∨
    ∃ s, .ok (some s) ∈ answers env rs ∧ Within node s

section

variable {n : Normalizer} {ds : List Decl} {config : Config} {rs : List Request} {node : Schema}

theorem accounts_of_hasNode (h : HasNode ⟨(Universe.initial n).insertAll ds, config⟩ rs node) :
    Environment.Accounts ⟨(Universe.initial n).insertAll ds, config⟩ rs node := by
  have keyed := Universe.keyed_insertAll n ds
  generalize (Universe.initial n).insertAll ds = u at h keyed ⊢
  have empty : Environment.Sound ⟨u, config⟩ rs {} := fun _ hentry => by cases hentry
  obtain ⟨registered, answered⟩ := Environment.sound_serve keyed (List.Subset.refl rs) empty
  rcases h with ⟨entry, hentry, inside⟩ | ⟨s, hs, inside⟩
  · exact registered entry hentry node inside
  · exact answered s hs node inside

/-- A node is no reference or a pointer, unless a directive of its place states its reference, or
an array directive is laid over it while it is a pointer. -/
theorem refers_of_hasNode (h : HasNode ⟨(Universe.initial n).insertAll ds, config⟩ rs node) :
    ∃ L, Environment.Places ⟨(Universe.initial n).insertAll ds, config⟩ rs node L ∧
      L.Refers ⟨(Universe.initial n).insertAll ds, config⟩ node := by
  obtain ⟨L, place, accounted⟩ := accounts_of_hasNode h
  exact ⟨L, place, accounted.refers⟩

end

/-- A node that refers to another schema says nothing besides, but for labels. -/
def PointersOnly (env : Environment) (rs : List Request) : Prop :=
  ∀ node, HasNode env rs node → node.isRef = true → node.IsPointer

/-- If no directive states a reference, and array directives only label the items, then all
references are pointers. -/
theorem pointersOnly_of_decorations {n : Normalizer} {ds : List Decl} {config : Config}
    {rs : List Request}
    (unstated : ∀ L ∈ Environment.layers ⟨(Universe.initial n).insertAll ds, config⟩ rs,
      ∀ d ∈ L.all, d.text? "$ref" = none)
    (decorations : ∀ L ∈ Environment.layers ⟨(Universe.initial n).insertAll ds, config⟩ rs,
      ∀ d ∈ L.items, d.isDecoration = true) :
    PointersOnly ⟨(Universe.initial n).insertAll ds, config⟩ rs := by
  intro node has ref
  obtain ⟨L, place, accounted⟩ := accounts_of_hasNode has
  have unstated := place.holds (fun _ laid => by cases laid) unstated
  have decorations := place.holds (fun _ laid => by cases laid) decorations
  cases accounted.refers with
  | inline inline =>
    rw [isRef, inline] at ref
    cases ref
  | pointer pointer => exact pointer
  | stated laid states =>
    rw [isRef, ← states, unstated _ laid] at ref
    cases ref
  | edited laid more => cases more.symm.trans (decorations _ laid)

/-- The states that a catalog lists are those of an enumeration, and a pattern is asked of them. -/
def statusCatalog : Environment where
  types := (Universe.initial .standard).insertAll
    [{ name := "com.acme.Status", kind := .enum,
       constants := [{ name := "ACTIVE" }, { name := "CLOSED" }] },
      { name := "com.acme.Catalog", members :=
        [{ name := "states", type := .generic "list" [.plain "com.acme.Status"],
           directives := [(.arraySchema, [("schema", .obj [("pattern", .str "^A")])])] }] }]
  config := {}

def forCatalog : Request := { type := .plain "com.acme.Catalog" }

/-- The items of a property of a registered schema are a node. -/
theorem hasNode_items {env : Environment} {rs : List Request} {node : Schema}
    (holder property : String)
    (found : ((after env rs).registry.get? holder).bind (fun s =>
      (Assoc.get? s.properties property).bind Schema.items) = some node) :
    HasNode env rs node := by
  obtain ⟨s, registered, found⟩ := Option.bind_eq_some_iff.mp found
  obtain ⟨array, given, items⟩ := Option.bind_eq_some_iff.mp found
  have inArray : node ∈ array.parts := mem_parts.mpr (.inl items)
  have inHolder : array ∈ s.parts :=
    mem_parts.mpr (.inr (.inl (List.mem_map.mpr ⟨_, Assoc.mem_of_get? given, rfl⟩)))
  exact .inl ⟨_, Assoc.mem_of_get? registered, .part (.part .self inArray) inHolder⟩

/-- The items refer to the enumeration, and the pattern stands beside the reference. -/
theorem hasNode_statusCatalog : ∃ node, HasNode statusCatalog [forCatalog] node ∧
    node.ref = some "#/components/schemas/Status" ∧ node.facets.pattern = some "^A" := by
  have items : (((after statusCatalog [forCatalog]).registry.get? "Catalog").bind fun s =>
      (Assoc.get? s.properties "states").bind Schema.items).any (fun node =>
        node.ref == some "#/components/schemas/Status" && node.facets.pattern == some "^A") =
      true := by
    decide +kernel
  obtain ⟨node, found, pointed⟩ := (Option.any_eq_true _ _).mp items
  simp only [Bool.and_eq_true, beq_iff_eq] at pointed
  exact ⟨node, hasNode_items "Catalog" "states" found, pointed⟩

theorem refers_of_hasNode_statusCatalog : ∃ node, HasNode statusCatalog [forCatalog] node ∧
    node.ref = some "#/components/schemas/Status" ∧
    ∃ L, statusCatalog.Places [forCatalog] node L ∧ L.Refers statusCatalog node := by
  obtain ⟨node, has, ref, -⟩ := hasNode_statusCatalog
  exact ⟨node, has, ref, refers_of_hasNode has⟩

/-- A pattern is no label. -/
theorem not_pointersOnly_statusCatalog : ¬ PointersOnly statusCatalog [forCatalog] := by
  intro pointers
  obtain ⟨node, has, ref, pattern⟩ := hasNode_statusCatalog
  have pointer := pointers node has (by rw [isRef, ref]; rfl)
  simp [IsPointer, hasStructure, Facets.isEmpty, pattern] at pointer

/-! ### Types -/

/-- The structure of a node is that of its type, unless a directive of its place states the type
and puts no value type in its place, or an array directive names a type for the items. -/
theorem typed_of_hasNode {n : Normalizer} {ds : List Decl} {config : Config} {rs : List Request}
    {node : Schema} (h : HasNode ⟨(Universe.initial n).insertAll ds, config⟩ rs node) :
    ∃ L, Environment.Places ⟨(Universe.initial n).insertAll ds, config⟩ rs node L ∧
      L.Typed ⟨(Universe.initial n).insertAll ds, config⟩ node := by
  obtain ⟨L, place, accounted⟩ := accounts_of_hasNode h
  exact ⟨L, place, accounted.typed⟩

/-- Nodes have properties and items only if values of their type have them. -/
def TypesFit (env : Environment) (rs : List Request) : Prop :=
  ∀ node, HasNode env rs node → node.Fits

/-- If only value types are stated, each in the place of the type of an element, and array
directives name no types for the items, then all nodes fit their types. -/
theorem typesFit_of_unstated {n : Normalizer} {ds : List Decl} {config : Config}
    {rs : List Request}
    (unstated : ∀ L ∈ Environment.layers ⟨(Universe.initial n).insertAll ds, config⟩ rs,
      ∀ d ∈ L.types, d.statedType? = none)
    (unnamed : ∀ L ∈ Environment.layers ⟨(Universe.initial n).insertAll ds, config⟩ rs,
      ∀ d ∈ L.items, d.text? "implementation" = none) :
    TypesFit ⟨(Universe.initial n).insertAll ds, config⟩ rs := by
  intro node has
  obtain ⟨L, place, accounted⟩ := accounts_of_hasNode has
  have unstated := place.holds (fun _ laid => by cases laid) unstated
  have unnamed := place.holds (fun _ laid => by cases laid) unnamed
  cases accounted.typed with
  | fits fits => exact fits
  | stated laid states => cases (unstated _ laid).symm.trans states
  | items laid names => cases (unnamed _ laid).symm.trans names

/-- An amount of money that is written as a text. -/
def writtenMoney : Environment where
  types := (Universe.initial .standard).insertAll
    [{ name := "com.acme.Money", directives := [(.schema, [("type", .str "string")])],
       members := [{ name := "amount", type := .plain "long" }] }]
  config := {}

def forMoney : Request := { type := .plain "com.acme.Money" }

/-- The type is stated when the properties are there already. -/
theorem hasNode_writtenMoney : ∃ node, HasNode writtenMoney [forMoney] node ∧
    node.type = some .string ∧ node.properties ≠ [] := by
  have money : ((after writtenMoney [forMoney]).registry.get? "Money").any (fun node =>
      node.type == some .string && !node.properties.isEmpty) = true := by
    decide +kernel
  obtain ⟨node, registered, typed⟩ := (Option.any_eq_true _ _).mp money
  simp only [Bool.and_eq_true, beq_iff_eq, Bool.not_eq_true', List.isEmpty_eq_false_iff] at typed
  exact ⟨node, .inl ⟨_, Assoc.mem_of_get? registered, .self⟩, typed⟩

theorem typed_of_hasNode_writtenMoney : ∃ node, HasNode writtenMoney [forMoney] node ∧
    node.type = some .string ∧
    ∃ L, writtenMoney.Places [forMoney] node L ∧ L.Typed writtenMoney node := by
  obtain ⟨node, has, typed, -⟩ := hasNode_writtenMoney
  exact ⟨node, has, typed, typed_of_hasNode has⟩

/-- Texts have no properties. -/
theorem not_typesFit_writtenMoney : ¬ TypesFit writtenMoney [forMoney] := by
  intro fit
  obtain ⟨node, has, typed, properties⟩ := hasNode_writtenMoney
  exact properties ((fit node has).properties (by rw [typed]; rfl))

end Pass

end Schemata
