import Schemata.Proofs.Pass.Written

/-!
# Plain nodes

A node that refers to another schema is a pointer: it says nothing besides, but for labels.  A
node has properties only if its type is that of objects, and items only if it is that of arrays,
or if it has no type.  Both hold at every depth of what is written out for an occurrence.
-/
namespace Schemata

namespace SchemaType

/-- Whether values of the type have no properties. -/
def lacksProperties : SchemaType → Bool
  | .string => true
  | .number => true
  | .integer => true
  | .boolean => true
  | .array => true
  | _ => false

/-- Whether values of the type have no items. -/
def lacksItems : SchemaType → Bool
  | .string => true
  | .number => true
  | .integer => true
  | .boolean => true
  | .object => true
  | _ => false

end SchemaType

namespace Schema

/-- Apart from its reference the schema has no structure. -/
def IsPointer (s : Schema) : Prop := ({ s with ref := none } : Schema).hasStructure = false

instance (s : Schema) : Decidable s.IsPointer :=
  inferInstanceAs (Decidable (({ s with ref := none } : Schema).hasStructure = false))

/-- There are no properties under a type whose values have none. -/
def FitsProperties (s : Schema) : Prop :=
  s.type.any SchemaType.lacksProperties = true → s.properties = []

/-- There are no items under a type whose values have none. -/
def FitsItems (s : Schema) : Prop := s.type.any SchemaType.lacksItems = true → s.items = none

/-- The structure of the node itself is that of its type. -/
structure Fits (s : Schema) : Prop where
  properties : s.FitsProperties
  items : s.FitsItems

/-- The node is a pointer or no reference, and its structure is that of its type. -/
structure IsPlain (s : Schema) : Prop where
  pointer : s.isRef = true → s.IsPointer
  fits : s.Fits

variable {N N' : Schema → Prop} {s t : Schema}

theorem Everywhere.mono (h : Everywhere N s) (sub : ∀ t, N t → N' t) : Everywhere N' s :=
  fun inner inside => sub inner (h inner inside)

theorem Everywhere.own (h : Everywhere N s) : N s := h s .self

theorem Everywhere.of_mem_parts (h : Everywhere N s) {part : Schema} (mem : part ∈ s.parts) :
    Everywhere N part :=
  (everywhere_iff.mp h).2 part mem

/-- Another node with the same parts. -/
theorem Everywhere.of_same (h : Everywhere N s) (own : N t) (parts : t.parts = s.parts) :
    Everywhere N t :=
  everywhere_iff.mpr ⟨own, fun _ mem => h.of_mem_parts (parts ▸ mem)⟩

theorem Everywhere.of_leaf (own : N s) (parts : s.parts = []) : Everywhere N s := by
  refine everywhere_iff.mpr ⟨own, fun part mem => ?_⟩
  rw [parts] at mem
  cases mem

theorem Fits.congr (h : s.Fits) (type : t.type = s.type) (properties : t.properties = s.properties)
    (items : t.items = s.items) : t.Fits := by
  constructor
  · rw [FitsProperties, type, properties]
    exact h.properties
  · rw [FitsItems, type, items]
    exact h.items

theorem Fits.untyped (h : s.type = none) : s.Fits := by
  constructor
  · intro typed
    rw [h] at typed
    cases typed
  · intro typed
    rw [h] at typed
    cases typed

theorem Fits.bare (properties : s.properties = []) (items : s.items = none) : s.Fits :=
  ⟨fun _ => properties, fun _ => items⟩

theorem Fits.object (type : s.type = some .object) (items : s.items = none) : s.Fits := by
  refine ⟨fun typed => ?_, fun _ => items⟩
  rw [type] at typed
  cases typed

theorem Fits.array (type : s.type = some .array) (properties : s.properties = []) : s.Fits := by
  refine ⟨fun _ => properties, fun typed => ?_⟩
  rw [type] at typed
  cases typed

theorem IsPlain.inline (ref : s.ref = none) (fits : s.Fits) : s.IsPlain := by
  refine ⟨fun points => ?_, fits⟩
  rw [isRef, ref] at points
  cases points

/-- Labels are no structure. -/
theorem IsPlain.labelled (h : s.IsPlain) (l : Labels) : ({ s with labels := l } : Schema).IsPlain :=
  ⟨h.pointer, h.fits.congr rfl rfl rfl⟩

theorem isPlain_reference (name : String) : (reference name).IsPlain :=
  ⟨fun _ => rfl, .untyped rfl⟩

/-- A condition on nodes that holds of what is written out, whatever stands below it. -/
structure HoldsWritten (N : Schema → Prop) : Prop where
  reference (name : String) : N (.reference name)
  labelled {s : Schema} (l : Labels) : N s → N { s with labels := l }
  value (type : SchemaType) {f : Facets} (bare : f.extensions = []) :
    N { type := some type, facets := f }
  constrained {s : Schema} (target : ConstraintTarget) (ds : Directives) : s.ref = none → N s →
    N (s.constrained target ds)
  composition (parts : List Schema) : N { allOf := parts }
  array (s : Schema) : N (.array s)
  object (properties : List (String × Schema)) (additional : Option (Additional Schema)) :
    N { Schema.object with properties := properties, additional := additional }

namespace HoldsWritten

variable (holds : HoldsWritten N)

include holds

theorem used (h : Everywhere N s) (inline : s.ref = none) (target : ConstraintTarget)
    (ds : Directives) : Everywhere N (s.used target ds) := by
  have constrained : Everywhere N (s.constrained target ds) :=
    h.of_same (holds.constrained target ds inline h.own) rfl
  unfold Schema.used
  dsimp only
  split
  · exact constrained.of_same (holds.labelled _ constrained.own) rfl
  · exact constrained

theorem usedReference (h : Everywhere N s) (target : ConstraintTarget) (ds : Directives) :
    Everywhere N (Compiler.usedReference s target ds) := by
  have empty : Everywhere N {} := .of_leaf (holds.composition []) rfl
  unfold Compiler.usedReference
  dsimp only
  split
  · exact h
  · refine everywhere_iff.mpr ⟨holds.composition _, fun part mem => ?_⟩
    have cases : part = s ∨ part = ({} : Schema).used target ds := by
      simpa [mem_parts] using mem
    rcases cases with rfl | rfl
    · exact h
    · exact holds.used empty rfl target ds

/-- The directives of a use stand beside a reference or change the facets of what is inline. -/
theorem withUse (h : Everywhere N s) (u : Universe) (arg : TypeRef) :
    Everywhere N (Compiler.withUse u arg s) := by
  unfold Compiler.withUse
  split
  · exact h
  · dsimp only
    split
    · exact holds.usedReference h _ _
    · rename_i inline
      exact holds.used h (by simpa [isRef] using inline) _ _

/-- The condition holds at every depth of what is written out for an occurrence. -/
theorem compositional (u : Universe) : u.Compositional (Everywhere N) (Everywhere N) where
  reference name := .of_leaf (holds.reference name) rfl
  labelled l h := h.of_same (holds.labelled l h.own) rfl
  value type _ bare := .of_leaf (holds.value type bare) rfl
  argument h := h
  used arg h := holds.withUse h u arg
  array {s} h := by
    refine everywhere_iff.mpr ⟨holds.array s, fun part mem => ?_⟩
    have same : part = s := List.mem_singleton.mp mem
    exact same ▸ h
  anyMap := .of_leaf (holds.object [] _) rfl
  map {s} h := by
    refine everywhere_iff.mpr ⟨holds.object [] _, fun part mem => ?_⟩
    have same : part = s := List.mem_singleton.mp mem
    exact same ▸ h
  constants {key d s} _ h := by
    refine everywhere_iff.mpr ⟨holds.object _ none, fun part mem => ?_⟩
    have listed : part ∈ (Assoc.ofList (((d.enumValues (some .string) none).1.getD []).map
        fun key => (Mangle.rendered key, s))).map Prod.snd := by
      simpa [mem_parts, Schema.object, Schema.typed] using mem
    obtain ⟨entry, hentry, rfl⟩ := List.mem_map.mp listed
    obtain ⟨value, -, rfl⟩ := List.mem_map.mp (Assoc.mem_of_mem_ofList hentry)
    exact h

end HoldsWritten

/-- Nodes that are plain, and all that is within them. -/
abbrev Plainly : Schema → Prop := Everywhere IsPlain

theorem holdsWritten_isPlain : HoldsWritten IsPlain where
  reference := isPlain_reference
  labelled l h := h.labelled l
  value _ _ _ := .inline rfl (.bare rfl rfl)
  constrained _ _ inline h := .inline inline (h.fits.congr rfl rfl rfl)
  composition _ := .inline rfl (.untyped rfl)
  array _ := .inline rfl (.array rfl rfl)
  object _ _ := .inline rfl (.object rfl rfl)

/-- What is written out for an occurrence is plain at every depth. -/
theorem compositional_plainly (u : Universe) : u.Compositional Plainly Plainly :=
  holdsWritten_isPlain.compositional u

end Schema

end Schemata
