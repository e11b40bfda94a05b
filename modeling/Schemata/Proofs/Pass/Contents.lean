import Schemata.Proofs.Naming.Mangling
import Schemata.Proofs.Pass.Advice
import Schemata.Proofs.Pass.Calls

/-!
# What is inside a type

To open a type its wrappers are taken off, and a parameter or a wildcard is taken for its first
bound.  What it leads to then are its parts and the type of every value, but for the definition of
the type itself, or of the constants that a map has for its keys.  Nothing that is defined has
parameters.
-/
namespace Schemata

open Pass

namespace Universe

variable {u : Universe} {t : TypeRef}

theorem params_of_kindOf (hu : u.Concrete) {d : Decl}
    (kind : u.kindOf t = .record d ∨ u.kindOf t = .interface d ∨ u.kindOf t = .enum d ∨
      u.kindOf t = .iterable d ∧ u.hasProperties d = true) :
    ∀ d, u.declOf? t = some d → d.params = [] := by
  intro found declared
  obtain ⟨name, hname, hget⟩ := Option.bind_eq_some_iff.mp declared
  refine hu.defined hget ?_
  cases t with
  | named =>
    cases hname
    simp only [Universe.kindOf, hget, Universe.kindOfDecl] at kind
    cases hk : found.kind <;> simp_all
  | _ => cases hname

theorem params_of_isComposable (hu : u.Concrete) (h : u.isComposable t = true) :
    ∀ d, u.declOf? t = some d → d.params = [] := by
  unfold Universe.isComposable at h
  split at h
  · rename_i d hkind
    exact params_of_kindOf hu (.inl hkind)
  · rename_i d hkind
    exact params_of_kindOf hu (.inr (.inl hkind))
  · cases h

theorem bindings_eq_nil {d : Decl} (declared : u.declOf? t = some d) (params : d.params = []) :
    u.bindings t = [] := by
  rw [Universe.bindings, declared]
  simp [Decl.bindingsFor, params, Decl.bind, Assoc.ofList]

theorem substitute_composedParents (d : Decl) :
    (u.composedParents d).map (TypeRef.substitute []) = u.composedParents d := by
  rw [List.map_congr_left fun t _ => TypeRef.substitute_nil t, List.map_id']

/-- What the parameters of a type stand for is a part of it, or is the type of every value. -/
theorem mem_bindings (hu : u.Concrete) {s : TypeRef} (h : s ∈ (u.bindings t).values) :
    s ∈ t.parts ∨ s = .object := by
  rw [Universe.bindings] at h
  split at h
  · rename_i d declared
    exact (hu.mem_values_bindings declared h).imp_left fun given => t.args_subset_parts given
  · cases h

end Universe

namespace Call

variable {u : Universe} {element : Option Element} {t : TypeRef} {scope : Scope}

theorem inner_or_define_of_mem_ofMap (hu : u.Concrete) :
    ∀ call ∈ ofMap u t.args scope,
      (∃ s, call = .resolve none s scope ∧ (s ∈ t.parts ∨ s = .object)) ∨
        ∃ s ∈ t.parts, call = .define none s scope ∧
          ∀ d, u.declOf? s = some d → d.params = [] := by
  intro call hcall
  obtain ⟨key, rest, hargs, ⟨⟨d, kind⟩, rfl⟩ | ⟨-, rfl⟩⟩ := mem_ofMap hcall
  · have hkey : key ∈ t.parts := t.args_subset_parts (hargs ▸ List.mem_cons_self)
    exact .inr ⟨key, hkey, rfl, Universe.params_of_kindOf hu (.inr (.inr (.inl kind)))⟩
  · refine .inl ⟨_, rfl, ?_⟩
    cases rest with
    | nil => exact .inr rfl
    | cons value rest =>
      exact .inl (t.args_subset_parts (hargs ▸ List.mem_cons_of_mem _ List.mem_cons_self))

/-- An opened type leads to a type inside it, or to the definition of itself or of a part, which
has no parameters. -/
theorem inner_or_define_of_mem_ofOpened (hu : u.Concrete) :
    ∀ call ∈ ofOpened u element t scope,
      (∃ s, call = .resolve none s scope ∧ u.primitiveOf? t = none ∧
        (s ∈ t.parts ∨ s = .object)) ∨
        (∃ s ∈ t.parts, call = .define none s scope ∧
          ∀ d, u.declOf? s = some d → d.params = []) ∨
        call = .define element t scope ∧ ∀ d, u.declOf? t = some d → d.params = [] := by
  intro call hcall
  rcases mem_ofOpened hcall with
    ⟨item, kind, rfl⟩ | ⟨d, kind, inside⟩ | ⟨d, kind, item, value, rfl⟩ | ⟨d, kind, rfl⟩
  · exact .inl ⟨item, rfl, by simp [Universe.primitiveOf?, kind],
      .inl (Universe.mem_parts_of_kindOf kind)⟩
  · rcases inner_or_define_of_mem_ofMap hu call inside with ⟨s, same, mem⟩ | key
    · exact .inl ⟨s, same, by simp [Universe.primitiveOf?, kind], mem⟩
    · exact .inr (.inl key)
  · exact .inl ⟨item, rfl, by simp [Universe.primitiveOf?, kind], Universe.mem_bindings hu value⟩
  · exact .inr (.inr ⟨rfl, Universe.params_of_kindOf hu kind⟩)

end Call

/-! ### Opening and replacing -/

/-- A type is opened to itself, to the type of every value, or to what its first part is
opened to. -/
theorem TypeRef.opened_induction {u : Universe} {P : TypeRef → TypeRef → Prop}
    (named : ∀ {name args directives}, u.wrapperOf? (.named name args directives) = none →
      P (.named name args directives) (.named name args directives))
    (array : ∀ item, P (.array item) (.array item))
    (object : ∀ t, u.primitiveOf? t = none → P t .object)
    (first : ∀ {s t part}, u.primitiveOf? t = none → part ∈ t.parts → P part s → P t s)
    (subject : String) (t : TypeRef) : P t (t.opened u subject).1.type := by
  induction t using TypeRef.inductionOnParts with
  | step t ih =>
    have content (open' : u.primitiveOf? t = none) (missing : Diagnostics) :
        P t (TypeRef.openedFirst u subject missing t.parts).1.type := by
      cases hparts : t.parts with
      | nil => exact object t open'
      | cons part rest =>
        have hpart : part ∈ t.parts := hparts ▸ List.mem_cons_self
        exact first open' hpart (ih part hpart)
    cases t with
    | named name args directives =>
      rw [TypeRef.opened]
      split
      · rename_i w wrapper
        have open' : u.primitiveOf? (.named name args directives) = none := by
          unfold Universe.wrapperOf? at wrapper
          unfold Universe.primitiveOf?
          split at wrapper <;> simp_all
        have content := content open' []
        cases w <;> exact content
      · rename_i whole
        exact named whole
    | array item => exact array item
    | placeholder name bounds => exact content rfl _
    | wildcard bounds => exact content rfl _

/-- A substitute stays as it is written, or is made of what the type that it replaces is made
of. -/
theorem Universe.parts_carryBindings {u : Universe} (hu : u.Concrete) (target t : TypeRef) :
    u.carryBindings target t = target ∨
      (∃ name d args, u.get? name = some d ∧ d.params ≠ [] ∧
        u.carryBindings target t = .generic d.name args) ∧
        ∀ s ∈ (u.carryBindings target t).parts, s ∈ t.parts ∨ s = .object := by
  unfold Universe.carryBindings
  split
  · exact .inl rfl
  · rename_i d declared
    obtain ⟨name, -, hget⟩ := Option.bind_eq_some_iff.mp declared
    split
    · exact .inl rfl
    · rename_i generic
      refine .inr ⟨⟨name, d, _, hget, fun none => by simp [none] at generic, rfl⟩, fun s hs => ?_⟩
      obtain ⟨p, hp, rfl⟩ := List.mem_map.mp hs
      cases value : (u.bindings t).get? p.name with
      | none =>
        refine .inr ?_
        rw [Option.getD_none, TypeParam.fallback, hu.unbounded hget p hp]
        rfl
      | some s =>
        exact Universe.mem_bindings hu (List.mem_map.mpr ⟨_, Assoc.mem_of_get? value, rfl⟩)

end Schemata
