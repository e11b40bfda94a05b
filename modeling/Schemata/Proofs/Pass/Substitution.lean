import Schemata.Proofs.Pass.Refusals
import Schemata.Proofs.Pass.Termination

/-!
# What replaces types

The configuration has a table of types that are put in the place of others.  It is looked up for
each type that is met, also for those inside a type that it has just put there, and a list or a map
has no name that would be known when it is met again.  A type that is replaced by a list of itself
is therefore a list of lists without an end.  No other table keeps a request from its end.
-/
namespace Schemata

open Pass Relation

namespace Config

/-- The configuration with an empty table. -/
def withoutTable (c : Config) : Config := { c with customSchemas := [] }

/-- The types that are mentioned in the table. -/
def mentioned (c : Config) : List TypeRef :=
  c.customSchemas.flatMap fun entry => [entry.type, entry.replacement].filterMap TypeRef.parse?

end Config

namespace Call

/-- The call resolves a type of this name, of which nothing else is known. -/
def resolvesPlain (name : String) : Call → Bool
  | .resolve none (.named other [] []) ⟨[], none⟩ => other == name
  | _ => false

theorem eq_of_resolvesPlain {name : String} {call : Call} (h : call.resolvesPlain name = true) :
    call = .resolve none (.plain name) {} := by
  unfold resolvesPlain at h
  split at h
  · rw [eq_of_beq h]
    rfl
  · cases h

end Call

namespace Pass

/-- What the table of the configuration does to the end of a request. -/
structure TableEnds (env : Environment) : Prop where
  /-- Where nothing that it puts in the place of types is replaced in turn, every request ends. -/
  settled : env.config.isSettled = true →
    ∀ rs r, ((after env rs).resolve env r).1 ≠ .error .endless
  /-- Whatever is replaced, a request ends unless it leads to a type that is inside itself. -/
  straight {r : Request} : r.IsStraight env →
    ∀ rs, ((after env rs).resolve env r).1 ≠ .error .endless
  /-- A request for such a type is answered in no state, whatever depth it may take. -/
  unanswered {t : TypeRef} : Loops env t → ∀ depth scope p answer q,
    ¬ Yields ((Compiler.ofDepth env depth).request env { type := t, scope := scope }) p answer q
  /-- Unless it is refused for a name that it meets before, it has no end. -/
  endless {t : TypeRef} : Loops env t → env.config.naming.duplicates ≠ .error →
    ∀ p scope, (Pass.resolve p env { type := t, scope := scope }).1 = .error .endless

variable {env : Environment}

theorem not_yields_request_of_loops {t : TypeRef} (h : Loops env t) (depth : Nat) {scope : Scope}
    {p q : Pass} {answer : Option Schema} :
    ¬ Yields ((Compiler.ofDepth env depth).request env { type := t, scope := scope })
      p answer q := by
  intro answered
  obtain ⟨found, p', resolved, -⟩ := yields_bind.mp answered
  exact Compiler.not_resolves_of_loops h depth ⟨p, found, p', resolved⟩

theorem resolve_of_loops {t : TypeRef} (h : Loops env t)
    (lenient : env.config.naming.duplicates ≠ .error) (p : Pass) (scope : Scope) :
    (p.resolve env { type := t, scope := scope }).1 = .error .endless := by
  rcases errs_resolve env p { type := t, scope := scope } with
    ⟨s, answered, -⟩ | ⟨stop, stopped, errs⟩
  · have yields : Yields ((Compiler.serving env none t).request env { type := t, scope := scope })
        p s _ := Prod.ext answered rfl
    exact absurd yields (not_yields_request_of_loops h _)
  · rw [stopped]
    cases errs with
    | quiet unrefused =>
      cases stop with
      | duplicateName e => exact absurd rfl (unrefused e)
      | endless => rfl
    | clash strict => exact absurd strict lenient

/-- A table keeps a request from its end only by putting a type inside itself. -/
theorem tableEnds (n : Normalizer) {ds : List Decl} (config : Config)
    (concrete : Universe.OnlyConcrete ds) :
    TableEnds ⟨(Universe.initial n).insertAll ds, config⟩ := by
  have hu := Universe.concrete_insertAll n concrete
  have keyed := Universe.keyed_insertAll n ds
  generalize (Universe.initial n).insertAll ds = u at hu keyed ⊢
  exact
    { settled := fun settled rs r => ends_of_isStraight hu keyed (idle_after _ rs)
        fun _ => not_loops_of_isSettled hu settled _
      straight := fun straight rs => ends_of_isStraight hu keyed (idle_after _ rs) straight
      unanswered := fun h depth _ _ _ _ => not_yields_request_of_loops h depth
      endless := resolve_of_loops }

/-- A type of which the table makes a map from itself to itself. -/
def nested : Environment :=
  ⟨(Universe.initial .standard).insertAll [{ name := "A" }],
    { customSchemas := [⟨"A", "map<A,A>"⟩] }⟩

theorem onlyConcrete_nested : Universe.OnlyConcrete [{ name := "A" }] := by
  intro d hd
  rw [List.mem_singleton.mp hd]
  exact ⟨rfl, by decide⟩

theorem loops_nested : Loops nested (.plain "A") := by
  have leads : (Call.ofOccurrence nested none (.plain "A") {}).any (Call.resolvesPlain "A") =
      true := by
    decide +kernel
  obtain ⟨call, mem, plain⟩ := List.any_eq_true.mp leads
  obtain rfl := Call.eq_of_resolvesPlain plain
  exact .of_inside (.single mem)

/-- A map of texts in its place does no harm, a map of the type itself does. -/
theorem tableEnds_nested :
    Universe.OnlyConcrete [{ name := "A" }] ∧
      ((after ⟨nested.types, { customSchemas := [⟨"A", "map<string,string>"⟩] }⟩ []).resolve
        ⟨nested.types, { customSchemas := [⟨"A", "map<string,string>"⟩] }⟩
        { type := .plain "A" }).1 ≠ .error .endless ∧
      (({} : Pass).resolve nested { type := .plain "A" }).1 = .error .endless := by
  have ends (config : Config) := tableEnds .standard config onlyConcrete_nested
  exact ⟨onlyConcrete_nested, (ends _).settled (by decide +kernel) [] _,
    (ends _).endless loops_nested (by decide) {} {}⟩

/-- A request for the type comes to an end. -/
def EndsOn (env : Environment) (t : TypeRef) : Prop :=
  (({} : Pass).resolve env { type := t }).1 ≠ .error .endless

/-- If requests for the type and for all types that the table mentions end without the table, then
those for the type end with it. -/
def TableKeepsEnd (env : Environment) (t : TypeRef) : Prop :=
  (∀ s ∈ t :: env.config.mentioned, EndsOn ⟨env.types, env.config.withoutTable⟩ s) → EndsOn env t

/-- Without a table every request ends. -/
theorem endsOn_withoutTable (n : Normalizer) {ds : List Decl} (config : Config)
    (concrete : Universe.OnlyConcrete ds) (t : TypeRef) :
    EndsOn ⟨(Universe.initial n).insertAll ds, config.withoutTable⟩ t := by
  have hu := Universe.concrete_insertAll n concrete
  have settled : config.withoutTable.isSettled = true := Config.isSettled_of_customSchemas rfl
  exact ends_of_isStraight hu (Universe.keyed_insertAll n ds) rfl
    fun _ => not_loops_of_isSettled hu settled _

/-- The type and the map are resolved without the table, and with it the map has maps in it. -/
theorem not_tableKeepsEnd_nested : ¬ TableKeepsEnd nested (.plain "A") := fun keeps =>
  keeps (fun s _ => endsOn_withoutTable .standard nested.config onlyConcrete_nested s)
    (resolve_of_loops loops_nested (by decide) {} {})

end Pass

end Schemata
