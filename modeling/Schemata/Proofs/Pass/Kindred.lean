import Schemata.Proofs.Pass.Advice
import Schemata.Proofs.Universe.Reordering

/-!
# Kindred environments

Two environments are kindred if they declare the same types, perhaps in another order, and are
configured alike, but perhaps for what becomes of a clash of names.  Between two calls a step sees
no difference between them, but for the name that looks most like a missing one.
-/
namespace Schemata

/-- The configuration with another policy for clashes of names. -/
def Config.withPolicy (c : Config) (policy : DuplicatePolicy) : Config :=
  { c with naming := { c.naming with duplicates := policy } }

/-- Two diagnostics that may differ in the name that was perhaps meant. -/
structure Diagnostic.SameButHint (d d' : Diagnostic) : Prop where
  subject : d'.subject = d.subject
  code : d'.code = d.code
  message : d'.message = d.message
  context : d'.context = d.context ∨
    ∃ suggestion suggestion', d.context = hint suggestion ∧ d'.context = hint suggestion'

theorem Diagnostic.SameButHint.refl (d : Diagnostic) : d.SameButHint d :=
  ⟨rfl, rfl, rfl, .inl rfl⟩

theorem Diagnostic.sameButHint_undeclared (u u' : Universe) (subject : String) (t : TypeRef) :
    SameButHint (undeclared u subject t) (undeclared u' subject t) :=
  ⟨rfl, rfl, rfl, .inr ⟨_, _, rfl, rfl⟩⟩

/-! ### Names -/

namespace Mangle

variable (c : Config) (policy : DuplicatePolicy) (u : Universe)

theorem mangleArgs_withPolicy (inner : Writer) (args : List TypeRef) (seen : List String) :
    mangleArgs (c.withPolicy policy) u inner args seen = mangleArgs c u inner args seen := by
  induction args generalizing seen with
  | nil => rfl
  | cons arg rest ih =>
    cases rest with
    | nil => rfl
    | cons next rest =>
      simp only [mangleArgs, ih]
      rfl

theorem mangle_withPolicy (depth : Nat) :
    mangle (c.withPolicy policy) u depth = mangle c u depth := by
  induction depth with
  | zero => rfl
  | succ depth ih =>
    funext t seen
    simp only [mangle, ih, mangleArgs_withPolicy]
    rfl

theorem fullName_withPolicy (t : TypeRef) (ending : String) :
    fullName (c.withPolicy policy) u t ending = fullName c u t ending := by
  simp only [fullName, mangle_withPolicy]
  rfl

end Mangle

/-- The policy has no say in what is asked for. -/
theorem NameRequest.candidate_withPolicy (r : NameRequest) (c : Config) (policy : DuplicatePolicy)
    (u : Universe) : r.candidate (c.withPolicy policy) u = r.candidate c u := by
  simp only [NameRequest.candidate, Mangle.fullName_withPolicy]
  rfl

/-! ### What a step sees -/

/-- The same types in any order, and any policy for clashes of names. -/
structure Environment.Kin (env env' : Environment) : Prop where
  types : env.types.SameTypes env'.types
  config : ∃ policy, env'.config = env.config.withPolicy policy

namespace Environment.Kin

variable {env env' : Environment}

theorem refl (env : Environment) : env.Kin env := ⟨.refl _, _, rfl⟩

theorem withPolicy (env : Environment) (policy policy' : DuplicatePolicy) :
    Kin ⟨env.types, env.config.withPolicy policy⟩ ⟨env.types, env.config.withPolicy policy'⟩ :=
  ⟨.refl _, policy', rfl⟩

variable (h : env.Kin env')

include h

theorem isStreaming : env'.config.isStreaming = env.config.isStreaming := by
  obtain ⟨policy, same⟩ := h.config
  rw [same]
  rfl

theorem isVisible (owner : Decl) (m : Member) (view : Option String) :
    m.isVisible env' owner view = m.isVisible env owner view := by
  obtain ⟨policy, same⟩ := h.config
  have inView : m.inView env' owner view = m.inView env owner view := by
    simp only [Member.inView, same, h.types.isAssignable]
    rfl
  simp only [Member.isVisible, Member.isExposed, inView, same]
  rfl

theorem candidate (r : NameRequest) :
    r.candidate env'.config env'.types = r.candidate env.config env.types := by
  obtain ⟨policy, same⟩ := h.config
  rw [same, r.candidate_withPolicy, h.types.candidate]

theorem replaced (subject : String) (t : TypeRef) :
    Schemata.replaced env' subject t = Schemata.replaced env subject t := by
  obtain ⟨policy, same⟩ := h.config
  simp only [Schemata.replaced, same, h.types.declaredType?, h.types.carryBindings]
  rfl

theorem overridden (subject : String) (directive : Option Directive) (t : TypeRef) :
    (Schemata.overridden env'.types subject directive t).1 =
        (Schemata.overridden env.types subject directive t).1 ∧
      List.Forall₂ Diagnostic.SameButHint
        (Schemata.overridden env.types subject directive t).2
        (Schemata.overridden env'.types subject directive t).2 := by
  simp only [Schemata.overridden, h.types.declaredType?]
  split
  · exact ⟨rfl, .nil⟩
  · split
    · split
      · exact ⟨rfl, .nil⟩
      · exact ⟨rfl, .cons ⟨rfl, rfl, rfl, .inr ⟨_, _, rfl, rfl⟩⟩ .nil⟩
    · split <;> exact ⟨rfl, .nil⟩

/-- An occurrence is opened alike. -/
theorem openOccurrence (element : Option Element) (t : TypeRef) :
    (Schemata.openOccurrence env' element t).1 = (Schemata.openOccurrence env element t).1 ∧
      List.Forall₂ Diagnostic.SameButHint (Schemata.openOccurrence env element t).2
        (Schemata.openOccurrence env' element t).2 := by
  obtain ⟨type, hints⟩ :=
    h.overridden (subjectOf element t) (element.bind (·.directive? .schema)) t
  simp only [Schemata.openOccurrence, h.types.opened, h.replaced, type]
  refine ⟨trivial, ?_⟩
  have same (ds : Diagnostics) : List.Forall₂ Diagnostic.SameButHint ds ds :=
    List.forall₂_same.mpr fun d _ => .refl d
  exact List.rel_append (List.rel_append hints (same _)) (same _)

theorem constraintTarget (r : Registry) (t : TypeRef) (derived : Schema) :
    Element.constraintTarget env' r t derived = Element.constraintTarget env r t derived := by
  simp only [Element.constraintTarget, h.types.isContainer, h.types.unwrapped]

theorem withLiterals (r : Registry) (s : Schema) (d : Directive) (subject : String)
    (t : TypeRef) : s.withLiterals env' r d subject t = s.withLiterals env r d subject t := by
  simp only [Schema.withLiterals, h.types.literalType]

/-- A request may go to the same depth. -/
theorem depth (element : Option Element) (t : TypeRef) :
    Budget.depth env' element t = Budget.depth env element t := by
  obtain ⟨policy, same⟩ := h.config
  simp only [Budget.depth, Budget.declarations, sumOf_perm h.types.perm, same]
  rfl

theorem serving (element : Option Element) (t : TypeRef) :
    Compiler.serving env' element t = Compiler.ofDepth env' (Budget.depth env element t) := by
  rw [Compiler.serving, h.depth]

end Environment.Kin

end Schemata
