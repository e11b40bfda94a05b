import Schemata.Naming.Table

/-!
# One assignment

A name is assigned in one of three ways: it was assigned to the same candidate and origin
before, or the candidate is free or held by the origin already, or the candidate gets its
next number.  Every later fact about tables follows from these three cases.
-/
namespace Schemata

namespace NameTable

/-- The last number that was given to a candidate. -/
def number (t : NameTable) (candidate : String) : Nat := (t.suffixes.get? candidate).getD 0

/-- A candidate with a number. -/
def numbered (c : NamingConfig) (candidate : String) (n : Nat) : String :=
  candidate ++ c.generic ++ toString n

/-- The table after the next number of a candidate was given to an origin. -/
def recordNumbered (t : NameTable) (c : NamingConfig) (candidate origin : String) : NameTable :=
  { t with suffixes := t.suffixes.insert candidate (t.number candidate + 1) }.record candidate
    origin (numbered c candidate (t.number candidate + 1))

/-- The ways in which a candidate and its origin come to a name. -/
inductive Assigns (c : NamingConfig) (candidate origin : String) (t : NameTable) :
    String → NameTable → Prop where
  | again {name : String} (known : t.assigned.get? (candidate, origin) = some name) :
      Assigns c candidate origin t name t
  | plain (unknown : t.assigned.get? (candidate, origin) = none)
      (free : ∀ holder, t.originOf? candidate = some holder → holder = origin) :
      Assigns c candidate origin t candidate (t.record candidate origin candidate)
  | numbered (unknown : t.assigned.get? (candidate, origin) = none)
      (taken : ∃ holder, t.originOf? candidate = some holder ∧ holder ≠ origin)
      (policy : c.duplicates = .auto) :
      Assigns c candidate origin t (numbered c candidate (t.number candidate + 1))
        (t.recordNumbered c candidate origin)

variable {c : NamingConfig} {t t' : NameTable} {candidate origin name : String}

theorem assigns_of_assign (h : t.assign c candidate origin = .ok (name, t')) :
    Assigns c candidate origin t name t' := by
  unfold assign at h
  split at h
  · rename_i known
    cases h
    exact .again known
  · rename_i unknown
    split at h
    · rename_i free
      cases h
      refine .plain unknown fun holder held => ?_
      have hget : t.origins.get? candidate = some holder := held
      rw [hget] at free
      by_cases same : holder = origin
      · exact same
      · simp [same] at free
    · rename_i holder taken
      have htaken := Option.filter_eq_some_iff.mp taken
      split at h
      · cases h
      · rename_i policy
        cases h
        refine .numbered unknown ⟨holder, htaken.1, by simpa using htaken.2⟩ ?_
        cases hc : c.duplicates with
        | auto => rfl
        | error => exact absurd hc policy

/-- A call that the automatic policy answers is never refused. -/
theorem assign_auto (policy : c.duplicates = .auto) (t : NameTable) (candidate origin : String) :
    ∃ name t', t.assign c candidate origin = .ok (name, t') := by
  unfold assign
  split
  · exact ⟨_, _, rfl⟩
  · split
    · exact ⟨_, _, rfl⟩
    · simp [policy]

/-- A call is refused where the policy says so, for a key that has no name yet and whose
candidate another origin holds. -/
theorem assign_error_iff {e : DuplicateName} : t.assign c candidate origin = .error e ↔
    c.duplicates = .error ∧ t.assigned.get? (candidate, origin) = none ∧
      e.name = candidate ∧ e.incoming = origin ∧ t.originOf? candidate = some e.existing ∧
        e.existing ≠ origin := by
  cases known : t.assigned.get? (candidate, origin) with
  | some name => simp [assign, known]
  | none =>
    simp only [assign, known, true_and]
    split
    · rename_i free
      simp only [reduceCtorEq, false_iff]
      rintro ⟨-, -, -, held, other⟩
      exact Option.filter_eq_none_iff.mp free e.existing held (by simpa using other)
    · rename_i holder taken
      obtain ⟨held, other⟩ := Option.filter_eq_some_iff.mp taken
      have holds : t.originOf? candidate = some holder := held
      split
      · rename_i policy
        constructor
        · intro refused
          cases refused
          exact ⟨policy, rfl, rfl, holds, by simpa using other⟩
        · rintro ⟨-, rfl, rfl, same, -⟩
          cases holds.symm.trans same
          rfl
      · rename_i policy
        simp [policy]

@[simp] theorem assigned_record :
    (t.record candidate origin name).assigned = t.assigned.insert (candidate, origin) name := rfl

@[simp] theorem originOf?_record_same :
    (t.record candidate origin name).originOf? name = some origin := by
  simp [record, originOf?]

theorem originOf?_record_other {other : String} (h : name ≠ other) :
    (t.record candidate origin name).originOf? other = t.originOf? other := by
  simp [record, originOf?, Assoc.get?_insert_other _ _ _ _ h]

/-- What was assigned before a record stays, and nothing but the record is new. -/
theorem get?_assigned_record (key : String × String) :
    (t.record candidate origin name).assigned.get? key =
      if (candidate, origin) = key then some name else t.assigned.get? key := by
  by_cases h : (candidate, origin) = key
  · subst h
    simp
  · simp [h, Assoc.get?_insert_other]

theorem originOf?_record (other : String) :
    (t.record candidate origin name).originOf? other =
      if name = other then some origin else t.originOf? other := by
  by_cases h : name = other
  · subst h
    simp
  · simp [h, originOf?_record_other]

namespace Assigns

theorem given (h : Assigns c candidate origin t name t') :
    t'.assigned.get? (candidate, origin) = some name := by
  cases h with
  | again known => exact known
  | plain => simp
  | numbered => exact (get?_assigned_record _).trans (if_pos rfl)

/-- What was assigned once is assigned for good. -/
theorem keeps (h : Assigns c candidate origin t name t') {key : String × String} {other : String}
    (hkey : t.assigned.get? key = some other) : t'.assigned.get? key = some other := by
  have old {cand : String} (unknown : t.assigned.get? (candidate, origin) = none) :
      (t.record candidate origin cand).assigned.get? key = some other := by
    rw [get?_assigned_record, if_neg, hkey]
    intro same
    rw [same, hkey] at unknown
    cases unknown
  cases h with
  | again => exact hkey
  | plain unknown => exact old unknown
  | numbered unknown => exact old unknown

/-- A recorded origin is that of the call or was recorded before. -/
theorem origin_cases (h : Assigns c candidate origin t name t') {other holder : String}
    (held : t'.originOf? other = some holder) :
    (other = name ∧ holder = origin) ∨ t.originOf? other = some holder := by
  have new {base : NameTable} {given : String} (same : base.origins = t.origins)
      (held : (base.record candidate origin given).originOf? other = some holder) :
      (other = given ∧ holder = origin) ∨ t.originOf? other = some holder := by
    rw [originOf?_record] at held
    split at held
    · rename_i hgiven
      exact .inl ⟨hgiven.symm, (Option.some.inj held).symm⟩
    · rw [originOf?, same] at held
      exact .inr held
  cases h with
  | again => exact .inr held
  | plain => exact new rfl held
  | numbered => exact new rfl held

end Assigns

/-- A computed name is assigned to the candidate and the origin of its request. -/
theorem given_of_compute {t t' : NameTable} {config : Config} {u : Universe} {r : NameRequest}
    {name : String} (h : t.compute config u r = some (.ok (name, t'))) :
    ∃ key, r.candidate config u = some key ∧ t'.assigned.get? key = some name := by
  obtain ⟨⟨candidate, origin⟩, found, assigned⟩ := Option.map_eq_some_iff.mp h
  exact ⟨(candidate, origin), found, (assigns_of_assign assigned).given⟩

/-- Every assigned name still has the origin that it was assigned for. -/
def Kept (t : NameTable) : Prop :=
  ∀ candidate origin name, t.assigned.get? (candidate, origin) = some name →
    t.originOf? name = some origin

theorem kept_empty : ({} : NameTable).Kept := by
  intro candidate origin name h
  cases h

theorem Kept.record (kept : t.Kept)
    (free : ∀ holder, t.originOf? name = some holder → holder = origin) :
    (t.record candidate origin name).Kept := by
  intro candidate' origin' name' h
  rw [get?_assigned_record] at h
  rw [originOf?_record]
  split at h
  · rename_i same
    cases h
    cases same
    exact if_pos rfl
  · have held := kept _ _ _ h
    split
    · rename_i hname
      rw [← free origin' (hname ▸ held)]
    · exact held

/-- A call keeps the origins of names if a number that it hands out is free. -/
theorem Assigns.kept (h : Assigns c candidate origin t name t') (kept : t.Kept)
    (free : t.assigned.get? (candidate, origin) = none →
      (∃ holder, t.originOf? candidate = some holder ∧ holder ≠ origin) →
      ∀ holder, t.originOf? (NameTable.numbered c candidate (t.number candidate + 1)) =
        some holder → holder = origin) : t'.Kept := by
  cases h with
  | again => exact kept
  | plain _ own => exact kept.record own
  | numbered unknown taken =>
    have base : ({ t with suffixes := t.suffixes.insert candidate (t.number candidate + 1) } :
        NameTable).Kept := kept
    exact base.record (free unknown taken)

end NameTable

end Schemata
