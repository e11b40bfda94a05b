import Schemata.Proofs.Naming.Calls
import Schemata.Proofs.Pass.Steps

/-!
# Names under the strict policy

A table that never numbers gives out candidates as they stand.  A candidate belongs to the
first origin that asks for it, and every other origin is refused, so that names are apart
and keep their origins without any condition on how they are spelled.
-/
namespace Schemata

namespace NameTable

/-- Every key was given its candidate, which its origin holds. -/
def Unnumbered (t : NameTable) : Prop :=
  ∀ candidate origin name, t.assigned.get? (candidate, origin) = some name →
    name = candidate ∧ t.originOf? candidate = some origin

/-- What some requests in a row come to when no name is ever numbered. -/
structure NamesStrictly (c : Config) (u : Universe) (rs : List NameRequest) : Prop where
  /-- A call is refused exactly when its candidate is held by another origin, -/
  refused (qs : List NameRequest) (r : NameRequest) (e : DuplicateName) : qs ++ [r] <+: rs →
    ((after c u qs).compute c u r = some (.error e) ↔
      r.candidate c u = some (e.name, e.incoming) ∧
        (after c u qs).originOf? e.name = some e.existing ∧ e.existing ≠ e.incoming)
  /-- and then the table stays as it was, also in the state of a pass. -/
  atomic (qs : List NameRequest) (r : NameRequest) (e : DuplicateName) : qs ++ [r] <+: rs →
    (after c u qs).compute c u r = some (.error e) →
    after c u (qs ++ [r]) = after c u qs ∧
      ∀ p : Pass, p.names = after c u qs →
        (Pass.stateAfter (Pass.assignName ⟨u, c⟩ r) p).names = after c u qs
  /-- A name that is given is the candidate of its request. -/
  candidate (a : NameRequest × String) : a ∈ calls c u rs →
    (a.1.candidate c u).map Prod.fst = some a.2
  /-- Two origins never have one name, and a name keeps its origin. -/
  collisionFree : CollisionFree c u rs
  /-- A request that was answered is answered alike, and the table has nothing to add. -/
  again (a : NameRequest × String) : a ∈ calls c u rs →
    (after c u rs).compute c u a.1 = some (.ok (a.2, after c u rs))

variable {c : Config} {u : Universe} {t t' : NameTable} {candidate origin name : String}

theorem unnumbered_empty : ({} : NameTable).Unnumbered := by
  intro candidate origin name h
  cases h

theorem Unnumbered.kept (h : t.Unnumbered) : t.Kept := by
  intro candidate origin name known
  obtain ⟨rfl, held⟩ := h candidate origin name known
  exact held

/-- A candidate that is free or held by the origin may be recorded as the name of both. -/
theorem Unnumbered.record (h : t.Unnumbered)
    (free : ∀ holder, t.originOf? candidate = some holder → holder = origin) :
    (t.record candidate origin candidate).Unnumbered := by
  intro x holder given known
  rw [get?_assigned_record] at known
  split at known
  · rename_i same
    cases same
    cases known
    exact ⟨rfl, originOf?_record_same⟩
  · obtain ⟨rfl, held⟩ := h x holder given known
    refine ⟨rfl, ?_⟩
    rw [originOf?_record]
    split
    · rename_i same
      subst same
      rw [free holder held]
    · exact held

theorem Assigns.unnumbered (policy : c.naming.duplicates = .error)
    (step : Assigns c.naming candidate origin t name t') (h : t.Unnumbered) : t'.Unnumbered := by
  cases step with
  | again => exact h
  | plain _ free => exact h.record free
  | numbered _ _ auto =>
    rw [policy] at auto
    cases auto

theorem unnumbered_after (policy : c.naming.duplicates = .error) (rs : List NameRequest) :
    (after c u rs).Unnumbered := by
  induction rs using snoc_induction with
  | nil => exact unnumbered_empty
  | snoc qs r _ ih =>
    rw [after_snoc]
    obtain ⟨name, t', h, hone⟩ | hone := serve_one (c := c) (u := u) (after c u qs) r
    · obtain ⟨candidate, origin, -, step⟩ := assigns_of_compute h
      rw [hone]
      exact step.unnumbered policy ih
    · rw [hone]
      exact ih

/-- A key that was given a name is not given another one. -/
theorem compute_known {r : NameRequest} (found : r.candidate c u = some (candidate, origin))
    (known : t.assigned.get? (candidate, origin) = some name) :
    t.compute c u r = some (.ok (name, t)) := by
  simp [compute, assign, found, known]

/-- Without numbers, a key whose candidate is held by another origin has no name. -/
theorem Unnumbered.unknown (h : t.Unnumbered) {holder : String}
    (held : t.originOf? candidate = some holder) (other : holder ≠ origin) :
    t.assigned.get? (candidate, origin) = none := by
  cases known : t.assigned.get? (candidate, origin) with
  | none => rfl
  | some name =>
    obtain ⟨-, own⟩ := h candidate origin name known
    exact absurd (Option.some.inj (held.symm.trans own)) other

theorem Unnumbered.compute_error_iff (policy : c.naming.duplicates = .error) (h : t.Unnumbered)
    {r : NameRequest} {e : DuplicateName} : t.compute c u r = some (.error e) ↔
      r.candidate c u = some (e.name, e.incoming) ∧
        t.originOf? e.name = some e.existing ∧ e.existing ≠ e.incoming := by
  rw [compute, Option.map_eq_some_iff]
  constructor
  · rintro ⟨⟨candidate, origin⟩, found, refused⟩
    obtain ⟨-, -, rfl, rfl, held⟩ := assign_error_iff.mp refused
    exact ⟨found, held⟩
  · rintro ⟨found, held, other⟩
    refine ⟨_, found, assign_error_iff.mpr ⟨policy, ?_, rfl, rfl, held, other⟩⟩
    exact h.unknown held other

/-- The table of a pass after a name was asked for is the table that serves the request. -/
theorem names_assignName (env : Environment) (r : NameRequest) (p : Pass) :
    (Pass.stateAfter (Pass.assignName env r) p).names =
      (serve env.config env.types p.names [r]).2 := by
  rw [Pass.stateAfter, Pass.run_assignName]
  simp only [serve]
  split
  · rename_i none
    simp only [none]
  · rename_i refused
    simp only [refused]
  · rename_i answered
    simp only [answered]

theorem serve_refused {r : NameRequest} {e : DuplicateName}
    (h : t.compute c u r = some (.error e)) : serve c u t [r] = ([], t) := by
  simp only [serve, h]

/-- Under the strict policy a request is answered with its candidate or refused without a
trace, and what was answered once holds for good. -/
theorem namesStrictly (c : Config) (u : Universe) (rs : List NameRequest)
    (policy : c.naming.duplicates = .error) : NamesStrictly c u rs where
  refused qs r e _ := (unnumbered_after policy qs).compute_error_iff policy
  atomic qs r e _ refused := by
    constructor
    · rw [after_snoc, serve_refused refused]
    · intro p hp
      rw [names_assignName, hp, serve_refused refused]
  candidate a ha := by
    obtain ⟨candidate, origin, found, known⟩ := assigned_of_mem_calls ha
    obtain ⟨same, -⟩ := unnumbered_after policy rs candidate origin a.2 known
    rw [found, same, Option.map_some]
  collisionFree := by
    have owned {qs : List NameRequest} {a : NameRequest × String} (ha : a ∈ calls c u qs) :
        (after c u qs).originOf? a.2 = a.1.origin? c u := by
      obtain ⟨candidate, origin, found, known⟩ := assigned_of_mem_calls ha
      rw [(unnumbered_after policy qs).kept _ _ _ known, NameRequest.origin?, found,
        Option.map_some]
    constructor
    · intro a ha b hb other same
      apply other
      rw [← owned ha, ← owned hb, same]
    · intro qs _ a ha
      exact owned ha
  again a ha := by
    obtain ⟨candidate, origin, found, known⟩ := assigned_of_mem_calls ha
    exact compute_known found known

/-- The second of the rivals is refused however often it asks, and the others keep their
names. -/
theorem namesStrictly_rivals :
    ({ naming := { duplicates := .error } } : Config).naming.duplicates = .error ∧
      NamesStrictly { naming := { duplicates := .error } } rivals
        (rivalRequests ++ rivalRequests) ∧
      (calls { naming := { duplicates := .error } } rivals
        (rivalRequests ++ rivalRequests)).map Prod.snd = ["Item_1", "Item", "Item_1", "Item"] :=
  ⟨rfl, namesStrictly _ _ _ rfl, by decide +kernel⟩

end NameTable

end Schemata
