import Schemata.Proofs.Naming.Assignment

/-!
# Names tell keys apart

A key is a candidate together with its origin.  A table gives two keys two names exactly as
long as the names that numbers make stay apart from all others.
-/
namespace Schemata

namespace NameTable

/-- The tables that assignments lead to. -/
inductive Reachable (c : NamingConfig) : NameTable → Prop where
  | empty : Reachable c {}
  | assign {t t' : NameTable} {candidate origin name : String} (before : Reachable c t)
      (step : t.assign c candidate origin = .ok (name, t')) : Reachable c t'

/-- No two keys have one name. -/
def TellsApart (t : NameTable) : Prop :=
  ∀ key key' name, t.assigned.get? key = some name → t.assigned.get? key' = some name → key = key'

/-- The candidate was given to an origin as it stands. -/
def Plain (t : NameTable) (candidate : String) : Prop :=
  ∃ origin, t.assigned.get? (candidate, origin) = some candidate

/-- The number was given to the candidate. -/
def Used (t : NameTable) (candidate : String) (n : Nat) : Prop := 0 < n ∧ n ≤ t.number candidate

/-- The numbered names in use are neither plain names nor numbered names of another
candidate. -/
structure NumbersApart (c : NamingConfig) (t : NameTable) : Prop where
  plain {x y : String} {n : Nat} : t.Plain x → t.Used y n → x ≠ numbered c y n
  other {x y : String} {m n : Nat} : x ≠ y → t.Used x m → t.Used y n →
    numbered c x m ≠ numbered c y n

/-- Where the names, the origins and the numbers of a table come from. -/
structure Sourced (c : NamingConfig) (t : NameTable) : Prop where
  name {candidate origin name : String} : t.assigned.get? (candidate, origin) = some name →
    name = candidate ∨ ∃ n, t.Used candidate n ∧ name = numbered c candidate n
  owner {name origin : String} : t.originOf? name = some origin →
    ∃ candidate, t.assigned.get? (candidate, origin) = some name
  number {candidate : String} {n : Nat} : t.Used candidate n →
    ∃ origin, t.assigned.get? (candidate, origin) = some (numbered c candidate n)

variable {c : NamingConfig} {t t' : NameTable} {candidate origin name : String}

theorem toString_injective {m n : Nat} (h : toString m = toString n) : m = n := by
  rw [Nat.toString_eq_ofList_toDigits, Nat.toString_eq_ofList_toDigits] at h
  have hdigits := congrArg (Nat.ofDigitChars 10 · 0) (String.ofList_injective h)
  simpa [Nat.ofDigitChars_toDigits] using hdigits

/-- A candidate has a different name under each number. -/
theorem numbered_injective {m n : Nat} (h : numbered c candidate m = numbered c candidate n) :
    m = n := by
  unfold numbered at h
  exact toString_injective ((String.append_right_inj _).mp h)

theorem numbered_ne (n : Nat) : numbered c candidate n ≠ candidate := by
  intro h
  have hlength := congrArg String.length h
  have hdigits : 0 < (toString n).length := Nat.length_repr_pos
  rw [numbered, String.length_append, String.length_append] at hlength
  omega

/-! ### The numbers of a table -/

@[simp] theorem number_record (x : String) :
    (t.record candidate origin name).number x = t.number x := rfl

theorem number_recordNumbered (x : String) : (t.recordNumbered c candidate origin).number x =
    if candidate = x then t.number candidate + 1 else t.number x := by
  change ((t.suffixes.insert candidate (t.number candidate + 1)).get? x).getD 0 = _
  by_cases h : candidate = x
  · subst h
    simp
  · simp [h, Assoc.get?_insert_other, number]

theorem Assigns.number_le (h : Assigns c candidate origin t name t') (x : String) :
    t.number x ≤ t'.number x := by
  cases h with
  | again => exact Nat.le_refl _
  | plain => exact Nat.le_refl _
  | numbered =>
    rw [number_recordNumbered]
    split
    · rename_i same
      subst same
      omega
    · omega

theorem Used.mono (h : Assigns c candidate origin t name t') {x : String} {n : Nat}
    (used : t.Used x n) : t'.Used x n :=
  ⟨used.1, Nat.le_trans used.2 (h.number_le x)⟩

theorem Plain.mono (h : Assigns c candidate origin t name t') {x : String} (plain : t.Plain x) :
    t'.Plain x := by
  obtain ⟨holder, given⟩ := plain
  exact ⟨holder, h.keeps given⟩

/-- Names that are apart after a step were apart before it. -/
theorem NumbersApart.before (apart : NumbersApart c t')
    (h : Assigns c candidate origin t name t') : NumbersApart c t where
  plain hx hn := apart.plain (hx.mono h) (hn.mono h)
  other hne hm hn := apart.other hne (hm.mono h) (hn.mono h)

/-- The number that a step used, if it used one. -/
theorem Assigns.used_cases (h : Assigns c candidate origin t name t') {x : String} {n : Nat}
    (used : t'.Used x n) :
    t.Used x n ∨ x = candidate ∧ name = NameTable.numbered c candidate n := by
  cases h with
  | again => exact .inl used
  | plain => exact .inl used
  | numbered =>
    have hle := used.2
    rw [number_recordNumbered] at hle
    split at hle
    · rename_i same
      subst same
      rcases Nat.lt_or_ge (t.number candidate) n with hnew | hold
      · have hn : n = t.number candidate + 1 := by omega
        subst hn
        exact .inr ⟨rfl, rfl⟩
      · exact .inl ⟨used.1, hold⟩
    · exact .inl ⟨used.1, hle⟩

/-- A key is new after a step only if the step was taken for it. -/
theorem Assigns.given_cases (h : Assigns c candidate origin t name t') {key : String × String}
    {other : String} (given : t'.assigned.get? key = some other) :
    t.assigned.get? key = some other ∨
      t.assigned.get? (candidate, origin) = none ∧ key = (candidate, origin) ∧ other = name := by
  have new {base : NameTable} {new : String} (same : base.assigned = t.assigned)
      (unknown : t.assigned.get? (candidate, origin) = none)
      (given : (base.record candidate origin new).assigned.get? key = some other) :
      t.assigned.get? key = some other ∨
        t.assigned.get? (candidate, origin) = none ∧ key = (candidate, origin) ∧ other = new := by
    rw [get?_assigned_record, same] at given
    split at given
    · rename_i hkey
      exact .inr ⟨unknown, hkey.symm, (Option.some.inj given).symm⟩
    · exact .inl given
  cases h with
  | again => exact .inl given
  | plain unknown => exact new rfl unknown given
  | numbered unknown => exact new rfl unknown given

/-- Names that occur once each tell keys apart. -/
theorem tellsApart_of_nodup (h : t.assigned.values.Nodup) : t.TellsApart := by
  intro key key' name given given'
  have hmem := Assoc.mem_of_get? given
  have hmem' := Assoc.mem_of_get? given'
  generalize t.assigned = assigned at h hmem hmem'
  induction assigned with
  | nil => cases hmem
  | cons entry rest ih =>
    have hfirst := (List.nodup_cons.mp h).1
    have hrest := (List.nodup_cons.mp h).2
    have named {k : String × String} (hk : (k, name) ∈ rest) : name ∈ Assoc.values rest :=
      List.mem_map.mpr ⟨_, hk, rfl⟩
    rcases List.mem_cons.mp hmem with rfl | later
    · rcases List.mem_cons.mp hmem' with same | later'
      · exact (congrArg Prod.fst same).symm
      · exact absurd (named later') hfirst
    · rcases List.mem_cons.mp hmem' with rfl | later'
      · exact absurd (named later) hfirst
      · exact ih hrest later later'

/-! ### What every table satisfies -/

theorem Sourced.step (h : Assigns c candidate origin t name t') (sourced : Sourced c t) :
    Sourced c t' where
  name {x holder other} given := by
    obtain old | ⟨unknown, hkey, rfl⟩ := h.given_cases given
    · obtain hplain | ⟨n, used, hname⟩ := sourced.name old
      · exact .inl hplain
      · exact .inr ⟨n, used.mono h, hname⟩
    · obtain ⟨rfl, rfl⟩ := Prod.mk.inj hkey
      cases h with
      | again known =>
        rw [known] at unknown
        cases unknown
      | plain => exact .inl rfl
      | numbered =>
        refine .inr ⟨_, ⟨Nat.succ_pos _, Nat.le_of_eq ?_⟩, rfl⟩
        rw [number_recordNumbered, if_pos rfl]
  owner {other holder} held := by
    obtain ⟨rfl, rfl⟩ | old := h.origin_cases held
    · exact ⟨candidate, h.given⟩
    · obtain ⟨x, given⟩ := sourced.owner old
      exact ⟨x, h.keeps given⟩
  number {x n} used := by
    obtain old | ⟨rfl, rfl⟩ := h.used_cases used
    · obtain ⟨holder, given⟩ := sourced.number old
      exact ⟨holder, h.keeps given⟩
    · exact ⟨origin, h.given⟩

theorem Reachable.sourced (h : Reachable c t) : Sourced c t := by
  induction h with
  | empty =>
    refine ⟨fun h => (by cases h), fun h => (by cases h), fun h => ?_⟩
    exact absurd (Nat.lt_of_lt_of_le h.1 h.2) (Nat.lt_irrefl 0)
  | assign _ step ih => exact ih.step (assigns_of_assign step)

/-- A new key gets a name that no other key has. -/
theorem Assigns.fresh (h : Assigns c candidate origin t name t') (sourced : Sourced c t)
    (kept : t.Kept) (apart : NumbersApart c t')
    (unknown : t.assigned.get? (candidate, origin) = none) {key : String × String}
    (given : t.assigned.get? key = some name) : False := by
  obtain ⟨x, holder⟩ := key
  have plain_before (hx : name = x) : t'.Plain x := ⟨holder, h.keeps (hx ▸ given)⟩
  cases h with
  | again known =>
    rw [known] at unknown
    cases unknown
  | plain _ free =>
    have hholder : holder = origin := free holder (kept _ _ _ given)
    subst hholder
    obtain rfl | ⟨n, used, hname⟩ := sourced.name given
    · rw [given] at unknown
      cases unknown
    · exact apart.plain ⟨holder, by simp⟩ used hname
  | numbered _ taken policy =>
    have now : (t.recordNumbered c candidate origin).Used candidate (t.number candidate + 1) := by
      refine ⟨Nat.succ_pos _, Nat.le_of_eq ?_⟩
      rw [number_recordNumbered, if_pos rfl]
    obtain hx | ⟨n, used, hname⟩ := sourced.name given
    · exact apart.plain (plain_before hx) now hx.symm
    · by_cases same : candidate = x
      · subst same
        have hn := numbered_injective hname
        have hle := used.2
        omega
      · have later := used.mono (Assigns.numbered unknown taken policy)
        exact apart.other same now later hname

/-- As long as numbered names stay apart, names tell keys apart and keep their origins. -/
theorem Reachable.tellsApart_of (h : Reachable c t) (apart : NumbersApart c t) :
    t.TellsApart ∧ t.Kept := by
  induction h with
  | empty =>
    refine ⟨fun key _ _ given => ?_, kept_empty⟩
    cases given
  | assign before step ih =>
    rename_i t₀ t₁ x o given
    have h := assigns_of_assign step
    obtain ⟨tells, kept⟩ := ih (apart.before h)
    constructor
    · intro key key' other hkey hkey'
      obtain old | ⟨unknown, rfl, rfl⟩ := h.given_cases hkey
      · obtain old' | ⟨unknown, rfl, rfl⟩ := h.given_cases hkey'
        · exact tells key key' other old old'
        · exact (h.fresh before.sourced kept apart unknown old).elim
      · obtain old' | ⟨_, rfl, _⟩ := h.given_cases hkey'
        · exact (h.fresh before.sourced kept apart unknown old').elim
        · rfl
    · refine h.kept kept fun unknown taken holder held => ?_
      obtain ⟨y, owned⟩ := before.sourced.owner held
      cases h with
      | again known =>
        rw [known] at unknown
        cases unknown
      | plain _ free =>
        obtain ⟨other, hother, hne⟩ := taken
        exact absurd (free other hother) hne
      | numbered _ _ policy =>
        exact ((Assigns.numbered unknown taken policy).fresh before.sourced kept apart unknown
          owned).elim

/-- A table tells its keys apart exactly when its numbered names are apart from all others. -/
theorem Reachable.tellsApart_iff (h : Reachable c t) : t.TellsApart ↔ NumbersApart c t := by
  constructor
  · intro tells
    constructor
    · intro x y n plain used same
      obtain ⟨holder, given⟩ := plain
      obtain ⟨owner, given'⟩ := h.sourced.number used
      obtain ⟨rfl, -⟩ := Prod.mk.inj (tells _ _ x given (same ▸ given'))
      exact numbered_ne n same.symm
    · intro x y m n other hm hn same
      obtain ⟨holder, given⟩ := h.sourced.number hm
      obtain ⟨owner, given'⟩ := h.sourced.number hn
      obtain ⟨rfl, -⟩ := Prod.mk.inj (tells _ _ _ given (same ▸ given'))
      exact other rfl
  · intro apart
    exact (h.tellsApart_of apart).1

end NameTable

end Schemata
