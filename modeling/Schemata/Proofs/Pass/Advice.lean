import Schemata.Pass.Request
import Schemata.Proofs.TypeRef.Occurrences

/-!
# Advice

Most diagnostics are advice: a text could not be read, or something that was stated is ignored.
What directives, literals and members are read as, and how an occurrence is opened, gives rise to
advice only; that a type is not declared and that a name is taken is found out by a pass alone.
-/
namespace Schemata

/-- The diagnostic says neither that a type is not declared nor that a name is taken. -/
def Diagnostic.IsAdvice (d : Diagnostic) : Prop :=
  d.code ≠ .unknownType ∧ d.code ≠ .duplicateSchemaName

/-- What is reported of a type that is not declared. -/
def Diagnostic.undeclared (u : Universe) (subject : String) (t : TypeRef) : Diagnostic :=
  .unknownType subject (t.name?.getD "") (u.suggest (t.name?.getD ""))

/-- Whether an opened type has a schema of its own or leads to one. -/
def Universe.isRepresented (u : Universe) (t : TypeRef) : Bool :=
  match u.kindOf t with
  | .wrapper _ _ => false
  | .placeholder => false
  | .wildcard => false
  | .unknown => false
  | _ => true

namespace Diagnostics

def AreAdvice (ds : Diagnostics) : Prop := ∀ d ∈ ds, d.IsAdvice

theorem AreAdvice.nil : AreAdvice [] := fun _ h => by cases h

theorem AreAdvice.single {d : Diagnostic} (h : d.IsAdvice) : AreAdvice [d] := by
  intro other hother
  rwa [List.mem_singleton.mp hother]

theorem AreAdvice.append {ds others : Diagnostics} (h : AreAdvice ds) (h' : AreAdvice others) :
    AreAdvice (ds ++ others) :=
  List.forall_mem_append.mpr ⟨h, h'⟩

theorem AreAdvice.flatMap {f : α → Diagnostics} {xs : List α} (h : ∀ x ∈ xs, AreAdvice (f x)) :
    AreAdvice (xs.flatMap f) := by
  intro d hd
  obtain ⟨x, hx, hd⟩ := List.mem_flatMap.mp hd
  exact h x hx d hd

end Diagnostics

open Diagnostics

theorem isAdvice_invalidValue (subject message : String) :
    (Compiler.invalidValue subject message).IsAdvice :=
  ⟨nofun, nofun⟩

theorem isAdvice_coercionFailed (subject raw reason : String) :
    (Diagnostic.coercionFailed subject raw reason).IsAdvice :=
  ⟨nofun, nofun⟩

/-! ### Literals -/

namespace LiteralType

theorem advice_settled (subject raw : String) (read : Except CoerceError (Option Json)) :
    AreAdvice (settled subject raw read).2 := by
  cases read with
  | ok value => exact .nil
  | error e => exact .single (isAdvice_coercionFailed _ _ _)

theorem advice_literal (l : LiteralType) (subject : String) (value : Json) :
    AreAdvice (l.literal subject value).2 := by
  cases value with
  | str raw => exact advice_settled _ _ _
  | _ => exact .nil

theorem advice_literals (l : LiteralType) (subject : String) (items : List Json) :
    AreAdvice (l.literals subject items).2 := by
  refine .flatMap fun read hread => ?_
  obtain ⟨item, -, rfl⟩ := List.mem_map.mp hread
  exact l.advice_literal subject item

end LiteralType

theorem Element.advice_defaultFrom (e : Element) (l : LiteralType) (kind : DirectiveKind)
    (many : Bool) : AreAdvice (e.defaultFrom l kind many).2 := by
  unfold Element.defaultFrom
  split
  · exact .nil
  · exact LiteralType.advice_settled _ _ _
  · exact .nil

theorem Element.advice_default? (e : Element) (l : LiteralType) (found : Option Json) :
    AreAdvice (e.default? l found).2 := by
  have bound := e.advice_defaultFrom l .bindable true
  unfold Element.default?
  split
  · exact .nil
  · dsimp only
    split
    · exact bound
    · exact bound.append (e.advice_defaultFrom l .jsonProperty false)

theorem Facets.advice_withLiterals (f : Facets) (d : Directive) (l : LiteralType)
    (subject : String) : AreAdvice (f.withLiterals d l subject).2 := by
  refine ((AreAdvice.append ?listed ?single).append ?several).append ?fallback
  case listed =>
    split
    · exact l.advice_literals subject _
    · exact l.advice_literal subject _
    · exact .nil
  case several =>
    split
    · exact l.advice_literals subject _
    · exact .nil
  case single | fallback =>
    split
    · exact l.advice_literal subject _
    · exact .nil

/-! ### Directives and declarations -/

theorem Schema.advice_overlaid (s : Schema) (d : Directive) (detached : Bool) (subject : String) :
    AreAdvice (s.overlaid d detached subject).2 := by
  change AreAdvice (s.overlaidType d subject).2
  unfold Schema.overlaidType
  split
  · exact .nil
  · split
    · exact .nil
    · exact .single (isAdvice_invalidValue _ _)

theorem Constant.advice_value (owner : String) (type : Option SchemaType) (format : Option String)
    (c : Constant) : AreAdvice (c.value owner type format).2 := by
  unfold Constant.value
  split
  · exact .nil
  · split
    · exact .nil
    · exact .nil
    · exact .single (isAdvice_coercionFailed _ _ _)

theorem Decl.advice_enumValues (d : Decl) (type : Option SchemaType) (format : Option String) :
    AreAdvice (d.enumValues type format).2 := by
  refine .flatMap fun value hvalue => ?_
  obtain ⟨c, -, rfl⟩ := List.mem_map.mp hvalue
  exact c.advice_value _ _ _

theorem Member.advice_propertyName (m : Member) (owner : Decl) :
    AreAdvice (m.propertyName owner).2 := by
  unfold Member.propertyName
  split
  · exact .nil
  · split
    · exact .nil
    · exact .nil
    · exact .single (isAdvice_invalidValue _ _)

/-! ### Opening -/

/-- Opening reports placeholders without a bound and nothing else. -/
theorem code_of_opened (u : Universe) (subject : String) (t : TypeRef) :
    ∀ d ∈ (t.opened u subject).2, d.code = .unresolvedPlaceholder := by
  induction t using TypeRef.inductionOnParts with
  | step t ih =>
    have first {missing : Diagnostics} (h : ∀ d ∈ missing, d.code = .unresolvedPlaceholder) :
        ∀ d ∈ (TypeRef.openedFirst u subject missing t.parts).2,
          d.code = .unresolvedPlaceholder := by
      cases hparts : t.parts with
      | nil => exact h
      | cons part rest => exact ih part (hparts ▸ List.mem_cons_self)
    cases t with
    | named name args directives =>
      rw [TypeRef.opened]
      split
      · exact first fun d hd => by cases hd
      · exact fun d hd => by cases hd
    | array element => exact fun d hd => by cases hd
    | placeholder name bounds =>
      refine first fun d hd => ?_
      rw [List.mem_singleton.mp hd]
      rfl
    | wildcard bounds => exact first fun d hd => by cases hd

theorem TypeRef.advice_opened (u : Universe) (subject : String) (t : TypeRef) :
    AreAdvice (t.opened u subject).2 := by
  intro d hd
  have code := code_of_opened u subject t d hd
  constructor <;> (rw [code]; nofun)

theorem advice_overridden (u : Universe) (subject : String) (directive : Option Directive)
    (t : TypeRef) : AreAdvice (overridden u subject directive t).2 := by
  unfold overridden
  split
  · exact .nil
  · split
    · split
      · exact .nil
      · exact .single ⟨nofun, nofun⟩
    · split <;> exact .nil

/-- An override keeps the type, or puts in its place one that the directive of the element
names, or the type of some values. -/
theorem overridden_cases (u : Universe) (subject : String) (element : Option Element)
    (t : TypeRef) {s : TypeRef}
    (h : (overridden u subject (element.bind (·.directive? .schema)) t).1 = s) :
    s = t ∨
      (∃ e d text, element = some e ∧ e.directive? .schema = some d ∧
        d.text? "implementation" = some text ∧ TypeRef.parse? text = some s) ∨
      ∃ p : Primitive, s = .plain p.name := by
  unfold overridden at h
  split at h
  · exact .inl h.symm
  · rename_i d hd
    obtain ⟨e, rfl, schema⟩ := Option.bind_eq_some_iff.mp hd
    split at h
    · rename_i text named
      split at h
      · rename_i replacement found
        have parsed := (Option.filter_eq_some_iff.mp found).1
        rw [show replacement = s from h] at parsed
        exact .inr (.inl ⟨e, d, text, rfl, schema, named, parsed⟩)
      · exact .inl h.symm
    · split at h
      · rename_i p _
        exact .inr (.inr ⟨p, h.symm⟩)
      · exact .inl h.symm

/-- What the configuration puts in the place of a type is written there, but for the bindings
that it takes over. -/
theorem replaced_cases (env : Environment) (subject : String) (t : TypeRef) {s : TypeRef}
    (h : (replaced env subject t).1 = s) :
    s = t ∨ ∃ entry ∈ env.config.customSchemas, ∃ target,
      TypeRef.parse? entry.replacement = some target ∧ s = env.types.carryBindings target t := by
  unfold replaced at h
  split at h
  · exact .inl h.symm
  · rename_i text found
    split at h
    · rename_i target declared
      have parsed := (Option.filter_eq_some_iff.mp declared).1
      have written {key : String} (stated : env.config.replacement? key = some text) :
          ∃ entry ∈ env.config.customSchemas, entry.replacement = text := by
        obtain ⟨entry, first, same⟩ := Option.map_eq_some_iff.mp stated
        exact ⟨entry, List.mem_of_find?_eq_some first, same⟩
      obtain ⟨entry, mem, rfl⟩ : ∃ entry ∈ env.config.customSchemas, entry.replacement = text := by
        rcases Option.or_eq_some_iff.mp found with whole | ⟨-, named⟩
        · exact written whole
        · obtain ⟨name, -, stated⟩ := Option.bind_eq_some_iff.mp named
          exact written stated
      exact .inr ⟨entry, mem, target, parsed, h.symm⟩
    · exact .inl h.symm

theorem advice_replaced (env : Environment) (subject : String) (t : TypeRef) :
    AreAdvice (replaced env subject t).2 := by
  unfold replaced
  split
  · exact .nil
  · split
    · exact .nil
    · exact .single ⟨nofun, nofun⟩

/-- Without custom schemas no type is replaced. -/
theorem replaced_of_customSchemas {u : Universe} {config : Config}
    (custom : config.customSchemas = []) (subject : String) (t : TypeRef) :
    replaced ⟨u, config⟩ subject t = (t, []) := by
  have nothing : replacementText? config t = none := by
    cases hname : t.name? <;> simp [replacementText?, Config.replacement?, custom, hname]
  simp [replaced, nothing]

theorem advice_openOccurrence (env : Environment) (element : Option Element) (t : TypeRef) :
    AreAdvice (openOccurrence env element t).2 :=
  ((advice_overridden _ _ _ _).append (TypeRef.advice_opened _ _ _)).append (advice_replaced _ _ _)

end Schemata
