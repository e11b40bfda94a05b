import Mathlib.Data.List.Perm.Basic
import Schemata.Pass.Request

/-!
# The same types in another order

Whatever is asked of a universe is found by name, or counts all of its declarations.  Two
universes that declare the same types in two orders give the same answers, but for the name that
looks most like a missing one.
-/
namespace Schemata

theorem sumOf_perm {α : Type} {weight : α → Nat} {items items' : List α}
    (h : items.Perm items') : sumOf weight items = sumOf weight items' := by
  induction h with
  | nil => rfl
  | cons x _ ih => rw [sumOf_cons, sumOf_cons, ih]
  | swap x y l => simp only [sumOf_cons]; omega
  | trans _ _ ih ih' => exact ih.trans ih'

/-- The same declarations under the same names, perhaps in another order. -/
structure Universe.SameTypes (u u' : Universe) : Prop where
  get? (name : String) : u'.get? name = u.get? name
  perm : u'.decls.Perm u.decls

namespace Universe.SameTypes

variable {u u' : Universe}

theorem refl (u : Universe) : u.SameTypes u := ⟨fun _ => rfl, .refl _⟩

variable (h : u.SameTypes u')

include h

/-! ### Single types -/

theorem declOf? (t : TypeRef) : u'.declOf? t = u.declOf? t := by
  cases t with
  | named name => exact h.get? name
  | _ => rfl

theorem kindOf (t : TypeRef) : u'.kindOf t = u.kindOf t := by
  cases t with
  | named name => simp only [Universe.kindOf, h.get?]
  | _ => rfl

theorem primitiveOf? (t : TypeRef) : u'.primitiveOf? t = u.primitiveOf? t := by
  simp only [Universe.primitiveOf?, h.kindOf]

theorem isEnum (t : TypeRef) : u'.isEnum t = u.isEnum t := by
  simp only [Universe.isEnum, h.kindOf]

theorem isContainer (t : TypeRef) : u'.isContainer t = u.isContainer t := by
  simp only [Universe.isContainer, h.kindOf]

theorem wrapperOf? (t : TypeRef) : u'.wrapperOf? t = u.wrapperOf? t := by
  simp only [Universe.wrapperOf?, h.kindOf]

theorem bindings (t : TypeRef) : u'.bindings t = u.bindings t := by
  simp only [Universe.bindings, h.declOf?]

theorem contains (name : String) : u'.contains name = u.contains name := by
  change (u'.get? name).isSome = (u.get? name).isSome
  rw [h.get?]

/-! ### Ancestry -/

theorem parentNames (name : String) : u'.parentNames name = u.parentNames name := by
  simp only [Universe.parentNames, h.get?]

theorem newParents (names : List String) : u'.newParents names = u.newParents names := by
  simp only [Universe.newParents, funext h.parentNames]

theorem closure (rounds : Nat) (names : List String) :
    u'.closure rounds names = u.closure rounds names := by
  induction rounds generalizing names with
  | zero => rfl
  | succ rounds ih => simp only [Universe.closure, h.newParents, ih]

theorem reachable (names : List String) : u'.reachable names = u.reachable names := by
  rw [Universe.reachable, Universe.reachable, h.closure, h.perm.length_eq]

theorem isAssignable (source target : String) :
    u'.isAssignable source target = u.isAssignable source target := by
  rw [Universe.isAssignable, Universe.isAssignable, h.reachable]

theorem hasProperties (d : Decl) : u'.hasProperties d = u.hasProperties d := by
  simp only [Universe.hasProperties, h.reachable, h.get?]

theorem isComposable (t : TypeRef) : u'.isComposable t = u.isComposable t := by
  simp only [Universe.isComposable, h.kindOf]

theorem refHasProperties (t : TypeRef) : u'.refHasProperties t = u.refHasProperties t := by
  simp only [Universe.refHasProperties, h.declOf?, funext h.hasProperties]

theorem composedParents (d : Decl) : u'.composedParents d = u.composedParents d := by
  simp only [Universe.composedParents, funext h.isComposable, funext h.refHasProperties]

theorem lineageFrom (steps : Nat) (seen : List String) (pending : List TypeRef) :
    u'.lineageFrom steps seen pending = u.lineageFrom steps seen pending := by
  induction steps generalizing seen pending with
  | zero => rfl
  | succ steps ih =>
    cases pending with
    | nil => rfl
    | cons t pending =>
      simp only [Universe.lineageFrom, h.declOf?, h.composedParents, h.bindings, ih]

theorem lineage (d : Decl) (bindings : Bindings) :
    u'.lineage d bindings = u.lineage d bindings := by
  rw [Universe.lineage, Universe.lineage, h.lineageFrom, Universe.lineageSteps,
    Universe.lineageSteps, sumOf_perm h.perm]
  simp only [h.composedParents]

/-! ### Representation -/

theorem plainRepresentation (t : TypeRef) :
    u'.plainRepresentation t = u.plainRepresentation t := by
  simp only [Universe.plainRepresentation, h.kindOf, h.primitiveOf?]

theorem enumRepresentation (hops : Nat) (d : Decl) :
    u'.enumRepresentation hops d = u.enumRepresentation hops d := by
  induction hops generalizing d with
  | zero =>
    unfold Universe.enumRepresentation
    simp only [h.kindOf, h.plainRepresentation]
  | succ hops ih =>
    unfold Universe.enumRepresentation
    simp only [h.kindOf, h.plainRepresentation, ih]

theorem representation (t : TypeRef) : u'.representation t = u.representation t := by
  simp only [Universe.representation, Universe.representationOfEnum, h.kindOf,
    h.enumRepresentation, h.plainRepresentation]

theorem enumSchema (d : Decl) : d.enumSchema u' = d.enumSchema u := by
  simp only [Decl.enumSchema, Universe.representationOfEnum, h.enumRepresentation]

theorem completed (t : TypeRef) (s : Schema) : s.completed u' t = s.completed u t := by
  simp only [Schema.completed, h.representation]

/-! ### Opening -/

theorem opened (subject : String) (t : TypeRef) : t.opened u' subject = t.opened u subject := by
  induction t using TypeRef.rec (motive_2 := fun ts => ∀ missing,
      TypeRef.openedFirst u' subject missing ts = TypeRef.openedFirst u subject missing ts) with
  | named name args directives ih => simp only [TypeRef.opened, h.wrapperOf?, ih]
  | array element => rfl
  | placeholder name bounds ih => simp only [TypeRef.opened, ih]
  | wildcard bounds ih => simp only [TypeRef.opened, ih]
  | nil => rfl
  | cons t rest ih => exact ih

theorem unwrapped (t : TypeRef) : t.unwrapped u' = t.unwrapped u := by
  induction t using TypeRef.rec (motive_2 := fun ts =>
      TypeRef.unwrappedFirst u' ts = TypeRef.unwrappedFirst u ts) with
  | named name args directives ih => simp only [TypeRef.unwrapped, h.wrapperOf?, ih]
  | array | placeholder | wildcard | nil => rfl
  | cons t rest ih => exact ih

theorem declaredType? (text : String) : u'.declaredType? text = u.declaredType? text := by
  simp only [Universe.declaredType?, h.declOf?]

theorem itemType (t : TypeRef) : u'.itemType t = u.itemType t := by
  simp only [Universe.itemType, h.unwrapped, h.kindOf, h.bindings]

theorem carryBindings (target replaced : TypeRef) :
    u'.carryBindings target replaced = u.carryBindings target replaced := by
  simp only [Universe.carryBindings, h.declOf?, h.bindings]

theorem literalType (r : Registry) (candidates : List Schema) (t : TypeRef) :
    Schemata.literalType u' r candidates t = Schemata.literalType u r candidates t := by
  simp only [Schemata.literalType, h.representation, h.unwrapped]

theorem admitsAll (t : TypeRef) : Compiler.admitsAll u' t = Compiler.admitsAll u t := by
  simp only [Compiler.admitsAll, h.primitiveOf?]

theorem withUse (arg : TypeRef) (s : Schema) :
    Compiler.withUse u' arg s = Compiler.withUse u arg s := by
  simp only [Compiler.withUse, h.primitiveOf?, h.isContainer]

/-! ### Names -/

theorem effectiveArgs (t : TypeRef) : Mangle.effectiveArgs u' t = Mangle.effectiveArgs u t := by
  simp only [Mangle.effectiveArgs, h.declOf?]

variable (c : Config)

theorem mangleArg (inner : Mangle.Writer) (arg : TypeRef) (seen : List String) :
    Mangle.mangleArg c u' inner arg seen = Mangle.mangleArg c u inner arg seen := by
  simp only [Mangle.mangleArg, h.primitiveOf?]

theorem mangleArgs (inner : Mangle.Writer) (args : List TypeRef) (seen : List String) :
    Mangle.mangleArgs c u' inner args seen = Mangle.mangleArgs c u inner args seen := by
  induction args generalizing seen with
  | nil => rfl
  | cons arg rest ih =>
    cases rest with
    | nil => exact h.mangleArg c inner arg seen
    | cons next rest => simp only [Mangle.mangleArgs, h.mangleArg, ih]

theorem mangle (depth : Nat) : Mangle.mangle c u' depth = Mangle.mangle c u depth := by
  induction depth with
  | zero => rfl
  | succ depth ih =>
    funext t seen
    simp only [Mangle.mangle, h.effectiveArgs, h.mangleArgs, ih]

theorem depthBound (t : TypeRef) : Mangle.depthBound c u' t = Mangle.depthBound c u t := by
  rw [Mangle.depthBound, Mangle.depthBound, sumOf_perm h.perm]

theorem fullName (t : TypeRef) (ending : String) :
    Mangle.fullName c u' t ending = Mangle.fullName c u t ending := by
  simp only [Mangle.fullName, h.isEnum, h.depthBound, h.mangle]

/-- A request has one candidate and one origin in both universes. -/
theorem candidate (r : NameRequest) : r.candidate c u' = r.candidate c u := by
  simp only [NameRequest.candidate, h.fullName]

end Universe.SameTypes

end Schemata
