import Mathlib.Logic.Relation
import Schemata.Proofs.Pass.Contents
import Schemata.Proofs.Pass.Outcome

/-!
# Types inside themselves

An occurrence leads to the types inside it before anything is given a name, and what is inside is
found after the configuration has put another type in its place.  As long as nothing is replaced
types get smaller, so that only what replaces a type can bring the type back.  A type that is inside
itself in this way is never resolved: to resolve it at some depth it would have to be resolved at a
smaller one.
-/
namespace Schemata

open Pass Relation

/-- The one type is resolved for the schema of the other. -/
def Inside (env : Environment) (s t : TypeRef) : Prop :=
  .resolve none s {} ∈ Call.ofOccurrence env none t {}

/-- The type, or some type inside it, is inside itself. -/
def Loops (env : Environment) (t : TypeRef) : Prop :=
  ∃ s, ReflTransGen (Inside env) s t ∧ TransGen (Inside env) s s

/-- What is inside a type does not depend on the element or on the scope. -/
theorem Call.resolve_mem_ofOpened {u : Universe} {element element' : Option Element}
    {s t : TypeRef} {scope scope' : Scope}
    (h : .resolve none s scope ∈ ofOpened u element t scope) :
    .resolve none s scope' ∈ ofOpened u element' t scope' := by
  unfold ofOpened at h ⊢
  cases kind : u.kindOf t with
  | array item =>
    simp only [kind] at h ⊢
    split at h
    · cases h
    · rename_i composed
      simpa [composed] using h
  | map d =>
    simp only [kind] at h ⊢
    cases args : t.args with
    | nil => simp [args, ofMap] at h
    | cons key rest =>
      simp only [args, ofMap] at h ⊢
      cases keyKind : u.kindOf key with
      | enum d => simpa [keyKind] using h
      | _ =>
        simp only [keyKind] at h ⊢
        split at h
        · cases h
        · rename_i said
          simpa [said] using h
  | iterable d =>
    simp only [kind] at h ⊢
    split at h
    · simp at h
    · rename_i bare
      simpa [bare] using h
  | _ => simp [kind] at h

variable {env : Environment} {s t : TypeRef} {scope : Scope}

theorem inside_of_mem (h : .resolve none s scope ∈ Call.ofOccurrence env none t scope) :
    Inside env s t :=
  Call.resolve_mem_ofOpened h

theorem Loops.of_inside (h : TransGen (Inside env) t t) : Loops env t := ⟨t, .refl, h⟩

/-! ### Tables that settle -/

namespace Config

/-- The configuration replaces neither the type nor any type inside it. -/
def leaves (c : Config) (t : TypeRef) : Bool :=
  t.occurrences.all fun s => (replacementText? c s).isNone

/-- What is inside the types that the configuration puts in the place of others is not replaced
again, and neither is the type of every value. -/
def isSettled (c : Config) : Bool :=
  c.leaves .object && c.customSchemas.all fun entry =>
    ((TypeRef.parse? entry.replacement).map fun target => target.parts.all c.leaves).getD true

variable {c : Config}

theorem leaves_of_mem_parts {s t : TypeRef} (h : c.leaves t = true) (part : s ∈ t.parts) :
    c.leaves s = true := by
  have all := List.all_eq_true.mp h
  refine List.all_eq_true.mpr fun r hr => all r ?_
  rw [TypeRef.occurrences_eq_cons, TypeRef.occurrencesAll_eq_flatMap]
  exact List.mem_cons_of_mem _ (List.mem_flatMap.mpr ⟨s, part, hr⟩)

theorem leaves_object (h : c.isSettled = true) : c.leaves .object = true :=
  (Bool.and_eq_true_iff.mp h).1

theorem leaves_replacement (h : c.isSettled = true) {entry : CustomSchema} {target s : TypeRef}
    (mem : entry ∈ c.customSchemas) (parsed : TypeRef.parse? entry.replacement = some target)
    (part : s ∈ target.parts) : c.leaves s = true := by
  have entries := List.all_eq_true.mp (Bool.and_eq_true_iff.mp h).2 entry mem
  rw [parsed] at entries
  exact List.all_eq_true.mp entries s part

/-- A table without entries is settled. -/
theorem isSettled_of_customSchemas (custom : c.customSchemas = []) : c.isSettled = true := by
  have object : c.leaves .object = true := by
    refine List.all_eq_true.mpr fun s _ => Option.isNone_iff_eq_none.mpr ?_
    cases name : s.name? <;> simp [replacementText?, replacement?, custom, name]
  simp [isSettled, object, custom]

theorem replaced_of_leaves {env : Environment} {t : TypeRef} (h : env.config.leaves t = true)
    (subject : String) : (replaced env subject t).1 = t := by
  have none := List.all_eq_true.mp h t t.mem_occurrences_self
  rw [Option.isNone_iff_eq_none] at none
  rw [replaced, none]

end Config

/-- What is still to be opened in a type; value types lead to no others. -/
def Universe.rank (u : Universe) (t : TypeRef) : Nat :=
  if (u.primitiveOf? t).isSome then 0 else Mangle.weight t

namespace Universe

variable {u : Universe}

theorem rank_le_weight (u : Universe) (t : TypeRef) : u.rank t ≤ Mangle.weight t := by
  unfold Universe.rank
  split
  · exact Nat.zero_le _
  · exact Nat.le_refl _

theorem rank_object (hu : u.Concrete) : u.rank .object = 0 := by
  obtain ⟨d, hget, kind, -⟩ := hu.value .object
  have primitive : u.kindOf .object = .primitive (d.primitive.getD .object) := by
    have hget : u.get? "object" = some d := hget
    simp [TypeRef.object, TypeRef.plain, Universe.kindOf, hget, Universe.kindOfDecl, kind]
  simp [Universe.rank, Universe.primitiveOf?, primitive]

/-- What is inside a type that is no value type comes before it. -/
theorem rank_lt (hu : u.Concrete) {s t : TypeRef} (open' : u.primitiveOf? t = none)
    (h : s ∈ t.parts ∨ s = .object) : u.rank s < u.rank t := by
  have own : u.rank t = Mangle.weight t := by simp [Universe.rank, open']
  rw [own]
  rcases h with part | rfl
  · exact Nat.lt_of_le_of_lt (rank_le_weight u s) (TypeRef.weight_lt_of_mem_parts part)
  · rw [rank_object hu, TypeRef.weight_eq_succ]
    exact Nat.succ_pos _

theorem rank_opened_le (hu : u.Concrete) (subject : String) (t : TypeRef) :
    u.rank (t.opened u subject).1.type ≤ u.rank t :=
  TypeRef.opened_induction (P := fun t s => u.rank s ≤ u.rank t) (fun _ => Nat.le_refl _)
    (fun _ => Nat.le_refl _) (fun _ open' => Nat.le_of_lt (rank_lt hu open' (.inr rfl)))
    (fun open' part le => Nat.le_trans le (Nat.le_of_lt (rank_lt hu open' (.inl part))))
    subject t

theorem weight_opened_le (u : Universe) (subject : String) (t : TypeRef) :
    Mangle.weight (t.opened u subject).1.type ≤ Mangle.weight t :=
  TypeRef.opened_induction (P := fun t s => Mangle.weight s ≤ Mangle.weight t)
    (fun _ => Nat.le_refl _) (fun _ => Nat.le_refl _)
    (fun t _ => by rw [TypeRef.weight_eq_succ t]; exact Nat.succ_le_succ (Nat.zero_le _))
    (fun _ part le => Nat.le_trans le (Nat.le_of_lt (TypeRef.weight_lt_of_mem_parts part)))
    subject t

theorem leaves_opened {c : Config} (settled : c.isSettled = true) (subject : String)
    {t : TypeRef} (h : c.leaves t = true) : c.leaves (t.opened u subject).1.type = true :=
  TypeRef.opened_induction (P := fun t s => c.leaves t = true → c.leaves s = true)
    (fun _ => id) (fun _ => id) (fun _ _ _ => Config.leaves_object settled)
    (fun _ part left h => left (Config.leaves_of_mem_parts h part)) subject t h

end Universe

/-- What is inside a type is part of what it is opened to and of what replaces that. -/
theorem inner_of_inside (hu : env.types.Concrete) (h : Inside env s t) :
    let found := (openOccurrence env none t).1.type
    env.types.primitiveOf? found = none ∧ (s ∈ found.parts ∨ s = .object) := by
  rcases Call.inner_or_define_of_mem_ofOpened hu _ h with
    ⟨inner, same, open', mem⟩ | ⟨_, _, other, _⟩ | ⟨other, _⟩
  · cases same
    exact ⟨open', mem⟩
  · cases other
  · cases other

/-- What is inside a type that is left as it is is left as it is, and comes before it. -/
theorem inside_of_leaves (hu : env.types.Concrete) (settled : env.config.isSettled = true)
    (h : Inside env s t) (left : env.config.leaves t = true) :
    env.config.leaves s = true ∧ env.types.rank s < env.types.rank t := by
  have opened := Universe.leaves_opened (u := env.types) settled (subjectOf none t) left
  have kept : (openOccurrence env none t).1.type =
      (t.opened env.types (subjectOf none t)).1.type := Config.replaced_of_leaves opened _
  obtain ⟨open', inner⟩ := inner_of_inside hu h
  rw [kept] at open' inner
  refine ⟨?_, Nat.lt_of_lt_of_le (Universe.rank_lt hu open' inner)
    (Universe.rank_opened_le hu _ t)⟩
  rcases inner with part | rfl
  · exact Config.leaves_of_mem_parts opened part
  · exact Config.leaves_object settled

theorem below_of_leaves (hu : env.types.Concrete) (settled : env.config.isSettled = true)
    (below : TransGen (Inside env) s t) (left : env.config.leaves t = true) :
    env.config.leaves s = true ∧ env.types.rank s < env.types.rank t := by
  induction below with
  | single inside => exact inside_of_leaves hu settled inside left
  | tail _ inside ih =>
    obtain ⟨left', less⟩ := inside_of_leaves hu settled inside left
    obtain ⟨left'', less'⟩ := ih left'
    exact ⟨left'', Nat.lt_trans less' less⟩

/-- What is inside a type is part of it, unless it was put there; that is left as it is. -/
theorem leaves_or_weight_lt (hu : env.types.Concrete) (settled : env.config.isSettled = true)
    (h : Inside env s t) : env.config.leaves s = true ∨ Mangle.weight s < Mangle.weight t := by
  obtain ⟨-, inner⟩ := inner_of_inside hu h
  have own (part : s ∈ (t.opened env.types (subjectOf none t)).1.type.parts ∨ s = .object) :
      env.config.leaves s = true ∨ Mangle.weight s < Mangle.weight t := by
    rcases part with part | rfl
    · exact .inr (Nat.lt_of_lt_of_le (TypeRef.weight_lt_of_mem_parts part)
        (Universe.weight_opened_le env.types _ t))
    · exact .inl (Config.leaves_object settled)
  rcases inner with part | rfl
  · rcases replaced_cases env (subjectOf none t) (t.opened env.types (subjectOf none t)).1.type rfl
      with same | ⟨entry, mem, target, parsed, same⟩
    · exact own (.inl (same ▸ part))
    · have part : s ∈ (env.types.carryBindings target
          (t.opened env.types (subjectOf none t)).1.type).parts := same ▸ part
      rcases Universe.parts_carryBindings hu target _ with written | ⟨-, carried⟩
      · rw [written] at part
        exact .inl (Config.leaves_replacement settled mem parsed part)
      · exact own (carried s part)
  · exact own (.inr rfl)

theorem weight_lt_of_below (hu : env.types.Concrete) (settled : env.config.isSettled = true)
    (below : TransGen (Inside env) s t) (replaced : env.config.leaves s ≠ true) :
    Mangle.weight s < Mangle.weight t := by
  induction below with
  | single inside => exact (leaves_or_weight_lt hu settled inside).resolve_left replaced
  | @tail middle t below inside ih =>
    -- what is below a type that is left as it is would be left as it is
    have replaced' : env.config.leaves middle ≠ true := fun left =>
      replaced (below_of_leaves hu settled below left).1
    exact Nat.lt_trans ih ((leaves_or_weight_lt hu settled inside).resolve_left replaced')

/-- Where the table is settled no type is inside itself: what replaces a type is left as it is
from there on, and everything else gets smaller. -/
theorem not_loops_of_isSettled (hu : env.types.Concrete) (settled : env.config.isSettled = true)
    (t : TypeRef) : ¬ Loops env t := by
  rintro ⟨s, -, loop⟩
  by_cases left : env.config.leaves s = true
  · exact Nat.lt_irrefl _ (below_of_leaves hu settled loop left).2
  · exact Nat.lt_irrefl _ (weight_lt_of_below hu settled loop left)

/-! ### No depth is enough -/

namespace Compiler

/-- The compiler resolves the type in some state. -/
def Resolves (c : Compiler) (t : TypeRef) (scope : Scope) : Prop :=
  ∃ p found q, Yields (c.resolve none t scope) p found q

variable {c : Compiler} {p q : Pass}

theorem resolves_of_argument {arg : TypeRef} {found : Option Schema}
    (h : Yields (c.argument env arg scope) p found q) : c.Resolves arg scope := by
  simp only [argument, schema?, yields_bind] at h
  obtain ⟨_, _, ⟨resolved, p', h, _⟩, _⟩ := h
  exact ⟨p, resolved, p', h⟩

theorem resolves_of_map {args : List TypeRef} {found : Schema}
    (h : Yields (c.map env args scope) p found q)
    (mem : .resolve none s scope ∈ Call.ofMap env.types args scope) : c.Resolves s scope := by
  obtain ⟨key, rest, rfl, ⟨-, other⟩ | ⟨said, same⟩⟩ := Call.mem_ofMap mem
  · cases other
  · cases same
    cases kind : env.types.kindOf key with
    | enum d =>
      simp only [map, kind, unrolledMap, yields_bind] at h
      obtain ⟨_, _, _, _, _, value, _⟩ := h
      exact resolves_of_argument value
    | _ =>
      simp only [map, kind, uniformMap] at h
      have open' : admitsAll env.types (rest.head?.getD .object) = false := by
        simpa [Universe.isEnum, kind] using said
      simp only [open', Bool.false_eq_true, if_false, yields_bind] at h
      obtain ⟨_, _, value, _⟩ := h
      exact resolves_of_argument value

/-- An opened occurrence has a schema only after all inside it have. -/
theorem resolves_of_opened {subject : String} {element : Option Element} {found : Option Schema}
    (h : Yields (c.opened env subject element t scope) p found q)
    (mem : .resolve none s scope ∈ Call.ofOpened env.types element t scope) :
    c.Resolves s scope := by
  unfold Call.ofOpened at mem
  unfold opened at h
  cases kind : env.types.kindOf t with
  | array item =>
    simp only [kind, arrayOf] at h mem
    split at mem
    · cases mem
    · rename_i composed
      simp only [composed, if_false, yields_bind] at h
      obtain ⟨_, _, inner, _⟩ := h
      cases List.mem_singleton.mp mem
      exact resolves_of_argument inner
  | map d =>
    simp only [kind, yields_bind] at h mem
    obtain ⟨_, _, written, _⟩ := h
    exact resolves_of_map written mem
  | iterable d =>
    simp only [kind, collection] at h mem
    split at mem
    · cases List.mem_singleton.mp mem
    · rename_i bare
      simp only [bare, Bool.false_eq_true, if_false] at h
      obtain ⟨item, first, same⟩ := List.mem_map.mp mem
      cases same
      cases values : (env.types.bindings t).values with
      | nil => simp [values] at first
      | cons item' rest =>
        obtain rfl : s = item' := by simpa [values] using first
        simp only [values, yields_bind] at h
        obtain ⟨_, _, inner, _⟩ := h
        exact resolves_of_argument inner
  | enum | record | interface => simp [kind] at mem
  | primitive | wrapper | placeholder | wildcard | unknown => simp [kind] at mem

/-- To resolve a type at some depth, what is inside has to be resolved at a smaller one. -/
theorem Resolves.inside {depth : Nat} (h : (ofDepth env depth).Resolves t scope)
    (inside : Inside env s t) : ∃ inner < depth, (ofDepth env inner).Resolves s scope := by
  obtain ⟨p, found, q, resolved⟩ := h
  obtain ⟨inner, rfl, occurrence⟩ := yields_resolve_ofDepth resolved
  obtain ⟨schema, opened, -⟩ := yields_occurrence.mp occurrence
  exact ⟨inner, Nat.lt_succ_self inner,
    resolves_of_opened opened (Call.resolve_mem_ofOpened inside)⟩

theorem Resolves.below {depth : Nat} (h : (ofDepth env depth).Resolves t scope)
    (below : TransGen (Inside env) s t) :
    ∃ inner < depth, (ofDepth env inner).Resolves s scope := by
  induction below generalizing depth with
  | single inside => exact h.inside inside
  | tail _ inside ih =>
    obtain ⟨middle, less, resolved⟩ := h.inside inside
    obtain ⟨inner, less', resolved'⟩ := ih resolved
    exact ⟨inner, Nat.lt_trans less' less, resolved'⟩

/-- No depth is enough for a type that is inside itself. -/
theorem not_resolves_of_transGen (loop : TransGen (Inside env) t t) (depth : Nat) :
    ¬ (ofDepth env depth).Resolves t scope := by
  induction depth using Nat.strongRecOn with
  | ind depth ih =>
    intro resolved
    obtain ⟨inner, less, again⟩ := resolved.below loop
    exact ih inner less again

theorem not_resolves_of_loops (h : Loops env t) (depth : Nat) :
    ¬ (ofDepth env depth).Resolves t scope := by
  obtain ⟨s, inside, loop⟩ := h
  intro resolved
  rcases reflTransGen_iff_eq_or_transGen.mp inside with rfl | below
  · exact not_resolves_of_transGen loop depth resolved
  · obtain ⟨inner, -, resolved'⟩ := resolved.below below
    exact not_resolves_of_transGen loop inner resolved'

end Compiler

end Schemata
