import Schemata.Proofs.Pass.Replay

/-!
# Repeated requests

A request that was answered is answered again, and leaves the registry and the names as they
are.  The second answer is the first one, unless a collection was described where it was first
referred to, or a directive of the request refers to a name by itself.
-/
namespace Schemata

open Pass

/-- What a request asks for without entering a definition. -/
inductive Request.Surface (env : Environment) (r : Request) : Call → Prop where
  | asked {call : Call} (h : call ∈ Call.ofRequest r) : Surface env r call
  | inside {element : Option Element} {t : TypeRef} {scope : Scope} {call : Call}
      (h : Surface env r (.resolve element t scope))
      (hcall : call ∈ Call.ofOccurrence env element t scope) : Surface env r call

namespace Pass

/-- A request that was answered is answered again without a change to the registry and to the
names.  The answers are equal if the first one describes no reference, and the request states
none. -/
theorem resolve_again (env : Environment) (rs : List Request) (r : Request)
    {answer : Option Schema} {q : Pass} (h : (after env rs).resolve env r = (.ok answer, q)) :
    ∃ again ds, q.resolve env r = (.ok again, q.withDiagnostics ds) ∧
      (r.isRefFree = true →
        (∀ call, r.Surface env call → ¬ call.Describes env (after env rs)) → again = answer) := by
  let plain : Comparison := ⟨r.isRefFree = true ∧
    ∀ call, r.Surface env call → ¬ call.Describes env (after env rs)⟩
  let c := Compiler.serving env r.element r.type
  have par : Parallel c c plain (r.Surface env) (fun _ => False) (c.request env r)
      (c.request env r) plain.Found :=
    .request (fun exact => exact.1) fun call hcall => .asked hcall
  have replays : Replays plain (after env rs) (fun _ => False) (c.request env r)
      (c.request env r) plain.Found :=
    par.replays fun call => replays_ofDepth (C := plain) _ (fun inner _ mem => .inside inner mem)
      fun call hcall exact => exact.2 call hcall
  have level : Level (after env rs) (fun _ => False) (after env rs) :=
    ⟨.refl _, idle_after env rs, False.elim⟩
  obtain ⟨-, later⟩ := replays _ _ _ h fun _ => level
  obtain ⟨K, again, ds, yields, -, -, found⟩ := later q (.refl plain q)
  exact ⟨again, ds, yields, fun free silent => (found.eq ⟨free, silent⟩).symm⟩

end Pass

/-- Whether no collection is described where it is first referred to. -/
def Universe.describesNoCollection (u : Universe) : Bool :=
  u.decls.all fun entry => !entry.2.describesReference

theorem Call.not_describes {env : Environment} (h : env.types.describesNoCollection = true)
    (p : Pass) (call : Call) : ¬ call.Describes env p := by
  cases call with
  | resolve element t scope => exact id
  | define element t scope =>
    rintro ⟨⟨d, declared, described⟩, -⟩
    obtain ⟨name, -, hget⟩ := Option.bind_eq_some_iff.mp declared
    have plain := List.all_eq_true.mp h (name, d) (Assoc.mem_of_get? hget)
    simp [described] at plain

namespace Pass

/-! ### A documented collection -/

/-- Bags of things, with a member of their own. -/
def bags (documentation : Option String) : Environment where
  types := (Universe.initial .standard).insertAll
    [{ name := "com.acme.Bag", kind := .iterable, params := [⟨"T", []⟩],
       documentation := documentation, members := [{ name := "size", type := .plain "int" }] }]
  config := {}

def bagOfInts : Request := { type := .named "com.acme.Bag" [.plain "int"] [] }

/-- A bag without documentation is answered alike. -/
theorem resolve_again_bags :
    ∃ answer q, (after (bags none) []).resolve (bags none) bagOfInts = (.ok answer, q) ∧
      ∃ ds, q.resolve (bags none) bagOfInts = (.ok answer, q.withDiagnostics ds) := by
  obtain ⟨answer, h⟩ : ∃ answer, ((after (bags none) []).resolve (bags none) bagOfInts).1 =
      .ok answer := exists_of_isOk (by decide +kernel)
  refine ⟨answer, _, Prod.ext h rfl, ?_⟩
  obtain ⟨again, ds, yields, alike⟩ := resolve_again (bags none) [] bagOfInts (Prod.ext h rfl)
  obtain rfl := alike rfl fun call _ => Call.not_describes (by decide +kernel) _ call
  exact ⟨ds, yields⟩

/-- Whatever request was answered is answered alike when it is repeated, and changes nothing. -/
def AnswersAlike (env : Environment) : Prop :=
  ∀ rs r answer q, (after env rs).resolve env r = (.ok answer, q) →
    ∃ ds, q.resolve env r = (.ok answer, q.withDiagnostics ds)

/-- The description of an answer. -/
def descriptionOf? (answer : Except Stop (Option Schema)) : Option String :=
  answer.toOption.join.bind (·.labels.description)

/-- Only the first reference to the bag is described. -/
theorem not_answersAlike_bags : ¬ AnswersAlike (bags (some "A bag.")) := by
  intro alike
  let first := (after (bags (some "A bag.")) []).resolve (bags (some "A bag.")) bagOfInts
  obtain ⟨answer, h⟩ : ∃ answer, first.1 = .ok answer := exists_of_isOk (by decide +kernel)
  obtain ⟨ds, again⟩ := alike [] bagOfInts answer first.2 (Prod.ext h rfl)
  have same : descriptionOf? first.1 =
      descriptionOf? (first.2.resolve (bags (some "A bag.")) bagOfInts).1 := by
    rw [h, again]
  exact absurd same (by decide +kernel)

/-! ### A stated reference -/

/-- An enumeration of colors. -/
def colors : Environment where
  types := (Universe.initial .standard).insertAll [{ name := "com.acme.Color", kind := .enum }]
  config := {}

/-- A number that is said to be a color, which is named only after its default is read. -/
def statedColor : Request where
  type := .plain "int"
  element := some
    { name := "p"
      directives := [(.schema, [("$ref", .str "#/components/schemas/Color"),
        ("default", .str "5"), ("oneOf", .arr [.str "com.acme.Color"])])] }

/-- The default of an answer, if it is a text. -/
def textDefault? (answer : Except Stop (Option Schema)) : Option String :=
  answer.toOption.join.bind fun s => s.facets.defaultValue.bind Json.asStr?

example : textDefault? (({} : Pass).resolve colors statedColor).1 = none ∧
    textDefault? ((({} : Pass).resolve colors statedColor).2.resolve colors statedColor).1 =
      some "5" := by
  decide +kernel

end Pass

end Schemata
