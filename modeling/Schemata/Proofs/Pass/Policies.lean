import Schemata.Proofs.Pass.Lockstep
import Schemata.Proofs.Pass.Refusals

/-!
# The two policies

The policy for clashes of names is consulted where a second origin asks for a taken name, and
nowhere else.  Up to the first clash a run under the one policy is a run under the other; at a
clash the automatic policy hands out a number, and from then on it remembers that it has.
-/
namespace Schemata

/-- The environment under another policy for clashes of names. -/
def Environment.withPolicy (env : Environment) (policy : DuplicatePolicy) : Environment :=
  { env with config := env.config.withPolicy policy }

namespace Coupling

/-- A run under the automatic policy, whose table tells of the numbers that it handed out, beside
a run under the strict one. -/
def policies : Coupling := ⟨Eq, fun names => names.suffixes ≠ []⟩

theorem fits_policies (env : Environment) :
    policies.Fits (env.withPolicy .auto) (env.withPolicy .error) where
  kin := .withPolicy env .auto .error
  refl _ := rfl
  opens element t := by
    have same : openOccurrence (env.withPolicy .error) element t =
        openOccurrence (env.withPolicy .auto) element t := rfl
    rw [same]
    exact List.forall₂_same.mpr fun _ _ => rfl
  undeclared _ _ := rfl
  assigns {names} candidate origin unmarked := by
    simp only [NameTable.assign]
    split
    · exact .same unmarked
    · split
      · exact .same unmarked
      · exact .part (Assoc.insert_ne_nil _ _ _)
  keeps {names later} candidate origin name marked given := by
    simp only [NameTable.assign] at given
    split at given
    · cases given
      exact marked
    · split at given
      · cases given
        exact marked
      · cases given
        exact Assoc.insert_ne_nil _ _ _

end Coupling

namespace Pass

/-- What the runs of some requests under the two policies have to do with each other. -/
structure PoliciesAgree (env : Environment) (rs : List Request) : Prop where
  /-- What is answered throughout under the strict policy is answered alike under the automatic
  one, which leaves the same pass and hands out no number. -/
  ofStrict : (∀ a ∈ answers (env.withPolicy .error) rs, a.isOk = true) →
    serve (env.withPolicy .auto) {} rs = serve (env.withPolicy .error) {} rs ∧
      (after (env.withPolicy .auto) rs).names.suffixes = []
  /-- Where the automatic policy hands out no number, the strict one answers alike and leaves the
  same pass: it refuses nothing. -/
  ofAuto : (after (env.withPolicy .auto) rs).names.suffixes = [] →
    serve (env.withPolicy .error) {} rs = serve (env.withPolicy .auto) {} rs ∧
      ∀ a ∈ answers (env.withPolicy .error) rs, a.isOk = true ∨ a = .error .endless

variable {env : Environment} {rs : List Request}

/-- Under the automatic policy a request is answered, or has no end. -/
theorem unrefused_auto (policy : env.config.naming.duplicates = .auto) {p : Pass}
    {a : Except Stop (Option Schema)} (ha : a ∈ (p.serve env rs).1) :
    a.isOk = true ∨ a = .error .endless := by
  induction rs generalizing p with
  | nil => cases ha
  | cons r rest ih =>
    have split : a ∈ (p.resolve env r).1 :: ((p.resolve env r).2.serve env rest).1 := ha
    rcases List.mem_cons.mp split with here | later
    · obtain ⟨s, answered, -⟩ | ⟨stop, stopped, errs⟩ := errs_resolve env p r
      · exact .inl (by rw [here, answered]; rfl)
      · rw [here, stopped]
        cases errs with
        | quiet unrefused =>
          cases stop with
          | duplicateName e => exact absurd rfl (unrefused e)
          | endless => exact .inr rfl
        | clash strict =>
          rw [policy] at strict
          cases strict
    · exact ih later

/-- The two policies differ at clashes of names only. -/
theorem policiesAgree (env : Environment) (rs : List Request) : PoliciesAgree env rs := by
  have start : Coupling.policies.Linked {} {} := ⟨rfl, rfl, .nil, fun some => some rfl⟩
  have course := (Coupling.fits_policies env).serve start rs
  have together : (serve (env.withPolicy .error) {} rs).1 = (serve (env.withPolicy .auto) {} rs).1 →
      Coupling.policies.Linked (serve (env.withPolicy .auto) {} rs).2
          (serve (env.withPolicy .error) {} rs).2 →
        serve (env.withPolicy .error) {} rs = serve (env.withPolicy .auto) {} rs :=
    fun same linked => Prod.ext same (linked.eq id)
  constructor
  · intro answered
    rcases course with ⟨same, linked⟩ | ⟨-, e, refused⟩
    · exact ⟨(together same linked).symm, Classical.not_not.mp linked.unmarked⟩
    · cases answered _ refused
  · intro unnumbered
    rcases course with ⟨same, linked⟩ | ⟨numbered, -⟩
    · refine ⟨together same linked, fun a ha => ?_⟩
      have answered : a ∈ (serve (env.withPolicy .auto) {} rs).1 := same ▸ ha
      exact unrefused_auto rfl answered
    · exact absurd unnumbered numbered

/-- Alone, the owner is answered alike under both policies.  After the first item the second is
numbered under the one and refused under the other, and the owner with it. -/
theorem policiesAgree_strictPartners :
    (PoliciesAgree strictPartners [strictOwner] ∧
      (∀ a ∈ answers (strictPartners.withPolicy .error) [strictOwner], a.isOk = true) ∧
      (after (strictPartners.withPolicy .auto) [strictOwner]).registry.names =
        ["Pet", "Item", "Owner"]) ∧
    PoliciesAgree strictPartners [strictItem "a", strictOwner] ∧
      (after (strictPartners.withPolicy .auto) [strictItem "a", strictOwner]).names.suffixes =
        [("Item", 1)] ∧
      (answers (strictPartners.withPolicy .error) [strictItem "a", strictOwner]).map
        Except.isOk = [true, false] :=
  ⟨⟨policiesAgree _ _, by decide +kernel, by decide +kernel⟩, policiesAgree _ _,
    by decide +kernel, by decide +kernel⟩

end Pass

end Schemata
