import Schemata.Proofs.Pass.Contract

/-!
# Without directives and documentation

In a universe without directives and documentation nothing is laid over a schema: an element
contributes whether its schema admits null, and a property has the name of its member.
-/
namespace Schemata

def Member.isBare (m : Member) : Bool := m.directives.isEmpty && m.documentation.isNone

def Decl.isBare (d : Decl) : Bool :=
  d.directives.isEmpty && d.documentation.isNone && d.members.all Member.isBare

/-- Whether no declaration and no member has a directive or documentation. -/
def Universe.isBare (u : Universe) : Bool := u.decls.all fun entry => entry.2.isBare

theorem Decl.bare_directives {d : Decl} (h : d.isBare = true) : d.directives = [] := by
  simp only [Decl.isBare, Bool.and_eq_true, List.isEmpty_iff] at h
  exact h.1.1

theorem Decl.bare_documentation {d : Decl} (h : d.isBare = true) : d.documentation = none := by
  simp only [Decl.isBare, Bool.and_eq_true, Option.isNone_iff_eq_none] at h
  exact h.1.2

theorem Decl.bare_member {d : Decl} (h : d.isBare = true) {m : Member} (hm : m ∈ d.members) :
    m.directives = [] ∧ m.documentation = none := by
  simp only [Decl.isBare, Bool.and_eq_true, List.all_eq_true] at h
  have hmember := h.2 m hm
  simp only [Member.isBare, Bool.and_eq_true, List.isEmpty_iff,
    Option.isNone_iff_eq_none] at hmember
  exact hmember

theorem Universe.bare_decl {u : Universe} (h : u.isBare = true) {t : TypeRef} {d : Decl}
    (declared : u.declOf? t = some d) : d.isBare = true := by
  obtain ⟨name, _, hget⟩ := Option.bind_eq_some_iff.mp declared
  exact List.all_eq_true.mp h (name, d) (Assoc.mem_of_get? hget)

/-- An element without directives and documentation. -/
structure Element.Bare (e : Element) : Prop where
  directives : e.directives = []
  description : e.description? = none

/-- No element, or one that says nothing. -/
def SaysNothing (element : Option Element) : Prop := ∀ e, element = some e → e.Bare

theorem saysNothing_none : SaysNothing none := fun _ h => by cases h

theorem Element.bare_ofMember {d : Decl} (h : d.isBare = true) {m : Member} (hm : m ∈ d.members) :
    (Element.ofMember d m).Bare where
  directives := (Decl.bare_member h hm).1
  description := by
    simp only [Element.description?, Element.ofMember, (Decl.bare_member h hm).2,
      Element.descriptionOf, Option.bind_none, Option.bind_some, Decl.bare_documentation h,
      Option.or_none]

/-! ### Occurrences -/

mutual

theorem TypeRef.opened_subject (u : Universe) (subject subject' : String) (t : TypeRef) :
    (t.opened u subject).1 = (t.opened u subject').1 := by
  match t with
  | .named name args directives =>
    simp only [TypeRef.opened]
    split
    · exact congrArg (Opened.within _) (TypeRef.openedFirst_subject u subject subject' [] [] args)
    · rfl
  | .array element => rfl
  | .placeholder name bounds => exact TypeRef.openedFirst_subject u subject subject' _ _ bounds
  | .wildcard bounds => exact TypeRef.openedFirst_subject u subject subject' _ _ bounds

theorem TypeRef.openedFirst_subject (u : Universe) (subject subject' : String)
    (missing missing' : Diagnostics) (ts : List TypeRef) :
    (TypeRef.openedFirst u subject missing ts).1 =
      (TypeRef.openedFirst u subject' missing' ts).1 := by
  match ts with
  | [] => rfl
  | t :: _ => exact TypeRef.opened_subject u subject subject' t

end

theorem replaced_subject (env : Environment) (subject subject' : String) (t : TypeRef) :
    (replaced env subject t).1 = (replaced env subject' t).1 := by
  unfold replaced
  split
  · rfl
  · split <;> rfl

variable {env : Environment} {element : Option Element}

theorem SaysNothing.directive? (h : SaysNothing element) (kind : DirectiveKind) :
    (element.bind (·.directive? kind)) = none := by
  cases element with
  | none => rfl
  | some e => simp [Element.directive?, (h e rfl).directives]

/-- An element that says nothing does not change what its type is opened to. -/
theorem openOccurrence_of_saysNothing (h : SaysNothing element) (t : TypeRef) :
    (openOccurrence env element t).1 = (openOccurrence env none t).1 := by
  have first : (t.opened env.types (subjectOf element t)).1 =
      (t.opened env.types (subjectOf none t)).1 := TypeRef.opened_subject _ _ _ _
  simp only [openOccurrence, h.directive?, Option.bind_none, overridden, first]
  rw [replaced_subject env _ (subjectOf none t)]

theorem describedBy_of_saysNothing (h : SaysNothing element) (s : Schema) :
    Compiler.describedBy element s = s := by
  have nothing : element.bind Element.description? = none := by
    cases element with
    | none => rfl
    | some e => exact (h e rfl).description
  unfold Compiler.describedBy
  split
  · rename_i hnone
    simp only [Bool.and_eq_true, Option.isNone_iff_eq_none] at hnone
    rw [nothing, ← hnone.1]
    cases s
    rfl
  · rfl

theorem nameRequest_of_saysNothing (h : SaysNothing element) (d : Decl) (t : TypeRef)
    (scope : Scope) : d.nameRequest element t scope = d.nameRequest none t scope := by
  simp only [Decl.nameRequest, Decl.stereotype?, h.directive?, Option.bind_none]

/-! ### Definitions -/

theorem Decl.documented_of_bare {d : Decl} (h : d.isBare = true) (s : Schema) :
    d.documented s = s := by
  simp only [Decl.documented, Decl.bare_directives h, Decl.bare_documentation h]
  cases s
  simp [Assoc.get?, Element.descriptionOf]

/-- Without labels there is nothing that the first reference could repeat. -/
theorem Decl.definedReference_of_labels (d : Decl) (name : String) {s : Schema}
    (h : s.labels = {}) : d.definedReference name s = .reference name := by
  unfold Decl.definedReference
  split
  · rw [h]
    rfl
  · rfl

theorem Compiler.overlayOwn_of_bare {d : Decl} (h : d.isBare = true) (c : Compiler) (t : TypeRef)
    (s : Schema) : c.overlayOwn env d t s = pure s := by
  simp [Compiler.overlayOwn, Decl.bare_directives h]

/-! ### Members -/

theorem Member.propertyName_of_bare {owner : Decl} {m : Member} (h : owner.isBare = true)
    (hm : m ∈ owner.members) : m.propertyName owner = (m.name, []) := by
  simp [Member.propertyName, Member.statedName?, Member.strategyOf, (Decl.bare_member h hm).1,
    Decl.bare_directives h]

theorem Member.unwrapping?_of_bare {owner : Decl} {m : Member} (h : owner.isBare = true)
    (hm : m ∈ owner.members) : m.unwrapping? = none := by
  simp [Member.unwrapping?, (Decl.bare_member h hm).1]

namespace Pass

variable {H : Horizon} {pre : Prop} {c : Compiler}

theorem ensures_overlayAll {e : Element} (h : e.Bare) (s : Schema) (t : TypeRef)
    (target : ConstraintTarget) (fallback : List Schema) :
    Ensures H pre (c.overlayAll env s e t target fallback) fun s' => s' = s := by
  have stated : c.overlayStated env s e t = pure s := by
    simp [Compiler.overlayStated, Element.directive?, h.directives]
  have statedArray : c.overlayStatedArray env s e t = pure s := by
    simp [Compiler.overlayStatedArray, Element.directive?, h.directives]
  have constrained : s.constrained target e.directives = s := by
    simp only [Schema.constrained, h.directives, Directives.constraints, List.filter_nil,
      List.foldl_nil]
    cases s
    rfl
  have default (l : LiteralType) (found : Option Json) : (e.default? l found).1 = found := by
    cases found with
    | some value => rfl
    | none => simp [Element.default?, Element.defaultFrom, Element.directive?, h.directives]
  unfold Compiler.overlayAll
  rw [stated, pure_bind, statedArray, pure_bind, constrained]
  refine Ensures.get.bind fun p => (Ensures.noting _).bind fun value => .pure fun hvalue => ?_
  rw [hvalue.2, default]
  cases s
  rfl

/-- Binding an element that says nothing marks whether null is admitted, and no more. -/
theorem ensures_bind {e : Element} (h : e.Bare) (t : TypeRef) (derived : Schema)
    (nullable : Bool) :
    Ensures H pre (c.bind env e t derived nullable) fun s => s = derived.nullableIf nullable := by
  have admits : e.admitsNull nullable = nullable := by
    simp [Element.admitsNull, Element.directive?, h.directives]
  apply Ensures.get.bind
  intro p
  rw [admits]
  dsimp only
  split
  · refine (ensures_overlayAll h _ t _ _).bind fun s => .pure fun hs => ?_
    rw [hs.2]
    rfl
  · refine (ensures_overlayAll h _ t _ _).bind fun s => .pure fun hs => ?_
    have same : (if e.has .deprecated then some true else derived.labels.deprecated) =
        derived.labels.deprecated := by
      simp [Element.has, Directives.has, Assoc.contains, h.directives]
    rw [hs.2, same]
    cases derived
    rfl

end Pass

end Schemata
