import Schemata.Proofs.Pass.Lockstep
import Schemata.Proofs.Universe.Permuted

/-!
# The order of declarations is irrelevant

A pass asks a universe for types by name.  Over the same declarations in another order it answers
alike, registers the same schemas in the same order and assigns the same names; only the search
for the name that was perhaps meant sees the order.
-/
namespace Schemata

namespace Coupling

/-- Two runs that may differ in hints and never part. -/
def hints : Coupling := ⟨Diagnostic.SameButHint, fun _ => False⟩

theorem fits_hints {u u' : Universe} (h : u.SameTypes u') (config : Config) :
    hints.Fits ⟨u, config⟩ ⟨u', config⟩ where
  kin := ⟨h, config.naming.duplicates, rfl⟩
  refl := .refl
  opens element t :=
    (Environment.Kin.openOccurrence ⟨h, config.naming.duplicates, rfl⟩ element t).2
  undeclared := Diagnostic.sameButHint_undeclared u u'
  assigns {names} candidate origin _ := by
    cases names.assign config.naming candidate origin with
    | error e => exact .refused e
    | ok found => exact .same id
  keeps none := False.elim none

end Coupling

namespace Pass

/-- The built-in types and some declarations, inserted in their order. -/
def declaring (n : Normalizer) (config : Config) (ds : List Decl) : Environment where
  types := (Universe.initial n).insertAll ds
  config := config

/-- What fresh passes over the same declarations in two orders have in common. -/
structure OrderIrrelevant (env env' : Environment) (rs : List Request) : Prop where
  answers : answers env' rs = answers env rs
  /-- The answer to a name that is asked for then. -/
  named (name : String) :
    ((after env' rs).compileNamed env' name).1 = ((after env rs).compileNamed env name).1
  registry : (after env' rs).registry = (after env rs).registry
  names : (after env' rs).names = (after env rs).names
  /-- All that a diagnostic says but the name that was perhaps meant. -/
  diagnostics : List.Forall₂ Diagnostic.SameButHint (after env rs).diagnostics
    (after env' rs).diagnostics
  roots : CommandLine.defaultRoots env'.types = CommandLine.defaultRoots env.types

theorem compileNamed_of_linked {env env' : Environment} (fits : Coupling.hints.Fits env env')
    {p p' : Pass} (linked : Coupling.hints.Linked p p') (name : String) :
    (p'.compileNamed env' name).1 = (p.compileNamed env name).1 := by
  have same := (fits.resolve linked { type := .plain name }).agreed (fun _ => id) |>.1
  unfold compileNamed compile
  rw [fits.kin.types.contains]
  split
  · exact congrArg (Except.mapError NamedError.stopped) same
  · rfl

/-- The order in which types of distinct names are declared is seen in hints only. -/
theorem orderIrrelevant (n : Normalizer) (config : Config) {ds ds' : List Decl}
    (distinct : (ds.map Decl.name).Nodup)
    (own : ∀ d ∈ ds, d.name ∉ Universe.builtIns.map Decl.name) (perm : ds.Perm ds')
    (rs : List Request) :
    OrderIrrelevant (declaring n config ds) (declaring n config ds') rs := by
  have apart : Universe.Distinct ds := ⟨distinct, own⟩
  have fits : Coupling.hints.Fits (declaring n config ds) (declaring n config ds') :=
    Coupling.fits_hints (apart.sameTypes perm) config
  have start : Coupling.hints.Linked {} {} := ⟨rfl, rfl, .nil, id⟩
  obtain ⟨same, linked⟩ | ⟨marked, -⟩ := fits.serve start rs
  · exact ⟨same, compileNamed_of_linked fits linked, linked.registry, linked.names,
      linked.diagnostics, apart.defaultRoots perm⟩
  · exact False.elim marked

/-- Two types whose names are equally close to a third that is missing. -/
def nearMisses : List Decl :=
  [{ name := "com.acme.a.Cat" }, { name := "com.acme.b.Cat" },
    { name := "com.acme.House", members :=
      [{ name := "tenant", type := .plain "com.acme.Cat" },
        { name := "cat", type := .plain "com.acme.a.Cat" }] }]

def houseRequest : Request := { type := .plain "com.acme.House" }

/-- The house is built alike in both orders, and another type is proposed for its tenant. -/
theorem orderIrrelevant_nearMisses :
    ((nearMisses.map Decl.name).Nodup ∧
      (∀ d ∈ nearMisses, d.name ∉ Universe.builtIns.map Decl.name) ∧
      nearMisses.Perm nearMisses.reverse) ∧
    OrderIrrelevant (declaring .standard {} nearMisses)
      (declaring .standard {} nearMisses.reverse) [houseRequest] ∧
    (after (declaring .standard {} nearMisses) [houseRequest]).registry.names =
      ["Cat", "House"] ∧
    (after (declaring .standard {} nearMisses) [houseRequest]).diagnostics ≠
      (after (declaring .standard {} nearMisses.reverse) [houseRequest]).diagnostics := by
  have distinct : (nearMisses.map Decl.name).Nodup := by decide
  have own : ∀ d ∈ nearMisses, d.name ∉ Universe.builtIns.map Decl.name := by decide
  have perm : nearMisses.Perm nearMisses.reverse := (List.reverse_perm _).symm
  refine ⟨⟨distinct, own, perm⟩, orderIrrelevant .standard {} distinct own perm [houseRequest],
    by decide +kernel, by decide +kernel⟩

end Pass

end Schemata
