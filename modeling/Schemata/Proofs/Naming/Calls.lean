import Schemata.Proofs.Naming.Assignment

/-!
# Sequences of calls

A table serves requests one after the other.  Numbers keep the names of different origins
apart as long as no numbered name is held by another origin already; nothing in the table
looks whether it is.  The main statement says that this is the only way in which two origins
come to share a name.
-/
namespace Schemata

/-- The origin that a request is made for. -/
def NameRequest.origin? (r : NameRequest) (c : Config) (u : Universe) : Option String :=
  (r.candidate c u).map Prod.snd

namespace NameTable

/-- The requests that were given a name, with their names, and the table after all of them.
A request without an answer leaves the table as it was. -/
def serve (c : Config) (u : Universe) :
    NameTable → List NameRequest → List (NameRequest × String) × NameTable
  | t, [] => ([], t)
  | t, r :: rest =>
    match t.compute c u r with
    | some (.ok (name, t')) =>
      let (calls, last) := serve c u t' rest
      ((r, name) :: calls, last)
    | _ => serve c u t rest

/-- The calls that a fresh table answers. -/
def calls (c : Config) (u : Universe) (rs : List NameRequest) : List (NameRequest × String) :=
  (serve c u {} rs).1

/-- The table after some requests to a fresh one. -/
def after (c : Config) (u : Universe) (rs : List NameRequest) : NameTable := (serve c u {} rs).2

/-- Two origins never share a name, and the origin of a name that was given stays. -/
def CollisionFree (c : Config) (u : Universe) (rs : List NameRequest) : Prop :=
  (∀ a ∈ calls c u rs, ∀ b ∈ calls c u rs, a.1.origin? c u ≠ b.1.origin? c u → a.2 ≠ b.2) ∧
    ∀ qs, qs <+: rs → ∀ a ∈ calls c u qs, (after c u qs).originOf? a.2 = a.1.origin? c u

/-- Whenever a candidate is taken by another origin, its next numbered name is not. -/
def NumbersFree (c : Config) (u : Universe) (rs : List NameRequest) : Prop :=
  ∀ qs r, qs ++ [r] <+: rs → ∀ candidate origin, r.candidate c u = some (candidate, origin) →
    (after c u qs).assigned.get? (candidate, origin) = none →
    (∃ holder, (after c u qs).originOf? candidate = some holder ∧ holder ≠ origin) →
    ∀ holder, (after c u qs).originOf?
      (numbered c.naming candidate ((after c u qs).number candidate + 1)) = some holder →
      holder = origin

variable {c : Config} {u : Universe} {t t' : NameTable} {r : NameRequest} {name : String}

/-- An answered request has a candidate, to which its name was assigned. -/
theorem assigns_of_compute (h : t.compute c u r = some (.ok (name, t'))) :
    ∃ candidate origin, r.candidate c u = some (candidate, origin) ∧
      Assigns c.naming candidate origin t name t' := by
  obtain ⟨⟨candidate, origin⟩, found, h⟩ := Option.map_eq_some_iff.mp h
  exact ⟨candidate, origin, found, assigns_of_assign h⟩

theorem serve_append (t : NameTable) (qs rs : List NameRequest) :
    serve c u t (qs ++ rs) =
      ((serve c u t qs).1 ++ (serve c u (serve c u t qs).2 rs).1,
        (serve c u (serve c u t qs).2 rs).2) := by
  induction qs generalizing t with
  | nil => rfl
  | cons q qs ih =>
    simp only [List.cons_append, serve]
    split
    · rw [ih]
      rfl
    · exact ih t

theorem after_snoc (qs : List NameRequest) (r : NameRequest) :
    after c u (qs ++ [r]) = (serve c u (after c u qs) [r]).2 := by
  simp only [after, serve_append]

theorem calls_snoc (qs : List NameRequest) (r : NameRequest) :
    calls c u (qs ++ [r]) = calls c u qs ++ (serve c u (after c u qs) [r]).1 := by
  simp only [calls, after, serve_append]

/-- One more request is answered with a name or changes nothing. -/
theorem serve_one (t : NameTable) (r : NameRequest) :
    (∃ name t', t.compute c u r = some (.ok (name, t')) ∧
      serve c u t [r] = ([(r, name)], t')) ∨ serve c u t [r] = ([], t) := by
  simp only [serve]
  split
  · rename_i name t' h
    exact .inl ⟨name, t', h, rfl⟩
  · exact .inr rfl

/-- What holds of no requests, and after each further request of a list, holds of the list. -/
theorem snoc_induction {motive : List NameRequest → Prop} (rs : List NameRequest)
    (nil : motive []) (snoc : ∀ qs r, qs ++ [r] <+: rs → motive qs → motive (qs ++ [r])) :
    motive rs := by
  have from_here (qs rest : List NameRequest) (hsplit : qs ++ rest = rs) (h : motive qs) :
      motive rs := by
    induction rest generalizing qs with
    | nil =>
      rw [List.append_nil] at hsplit
      exact hsplit ▸ h
    | cons r rest ih =>
      have hnext : qs ++ [r] ++ rest = rs := by rw [List.append_assoc]; exact hsplit
      exact ih (qs ++ [r]) hnext (snoc qs r ⟨rest, hnext⟩ h)
  exact from_here [] rs rfl nil

/-- The table still knows every answer that it gave. -/
theorem assigned_of_mem_calls {rs : List NameRequest} {a : NameRequest × String}
    (ha : a ∈ calls c u rs) : ∃ candidate origin, a.1.candidate c u = some (candidate, origin) ∧
      (after c u rs).assigned.get? (candidate, origin) = some a.2 := by
  induction rs using snoc_induction with
  | nil => cases ha
  | snoc qs r _ ih =>
    rw [calls_snoc] at ha
    rw [after_snoc]
    obtain ⟨name, t', h, hone⟩ | hone := serve_one (c := c) (u := u) (after c u qs) r
    · obtain ⟨candidate, origin, found, step⟩ := assigns_of_compute h
      rw [hone] at ha ⊢
      rcases List.mem_append.mp ha with old | new
      · obtain ⟨candidate', origin', found', known⟩ := ih old
        exact ⟨candidate', origin', found', step.keeps known⟩
      · have same : a = (r, name) := List.mem_singleton.mp new
        subst same
        exact ⟨candidate, origin, found, step.given⟩
    · rw [hone] at ha ⊢
      exact ih (by simpa using ha)

/-- An origin is on record only for a name that it was given. -/
theorem mem_calls_of_originOf? {rs : List NameRequest} {name holder : String}
    (held : (after c u rs).originOf? name = some holder) :
    ∃ a ∈ calls c u rs, a.2 = name ∧ a.1.origin? c u = some holder := by
  induction rs using snoc_induction with
  | nil => cases held
  | snoc qs r _ ih =>
    rw [after_snoc] at held
    rw [calls_snoc]
    obtain ⟨given, t', h, hone⟩ | hone := serve_one (c := c) (u := u) (after c u qs) r
    · obtain ⟨candidate, origin, found, step⟩ := assigns_of_compute h
      rw [hone] at held ⊢
      obtain ⟨rfl, rfl⟩ | old := step.origin_cases held
      · exact ⟨(r, name), by simp, rfl, by simp [NameRequest.origin?, found]⟩
      · obtain ⟨a, ha, hname⟩ := ih old
        exact ⟨a, List.mem_append_left _ ha, hname⟩
    · rw [hone] at held ⊢
      obtain ⟨a, ha, hname⟩ := ih held
      exact ⟨a, List.mem_append_left _ ha, hname⟩

theorem calls_subset {qs rs : List NameRequest} (h : qs <+: rs) :
    calls c u qs ⊆ calls c u rs := by
  obtain ⟨rest, rfl⟩ := h
  intro a ha
  simp only [calls, serve_append]
  exact List.mem_append_left _ ha

theorem NumbersFree.mono {qs rs : List NameRequest} (h : qs <+: rs)
    (free : NumbersFree c u rs) : NumbersFree c u qs :=
  fun ps r hps => free ps r (hps.trans h)

/-- As long as numbers are free, no origin of a name is lost. -/
theorem NumbersFree.kept {rs : List NameRequest} (free : NumbersFree c u rs) :
    (after c u rs).Kept := by
  induction rs using snoc_induction with
  | nil => exact kept_empty
  | snoc qs r hqs ih =>
    rw [after_snoc]
    have kept : (after c u qs).Kept := ih (free.mono ((List.prefix_append _ _)))
    obtain ⟨name, t', h, hone⟩ | hone := serve_one (c := c) (u := u) (after c u qs) r
    · obtain ⟨candidate, origin, found, step⟩ := assigns_of_compute h
      rw [hone]
      exact step.kept kept (free qs r (List.prefix_refl _) candidate origin found)
    · rw [hone]
      exact kept

theorem NumbersFree.origin_of_call {rs : List NameRequest} (free : NumbersFree c u rs)
    {a : NameRequest × String} (ha : a ∈ calls c u rs) :
    (after c u rs).originOf? a.2 = a.1.origin? c u := by
  obtain ⟨candidate, origin, found, known⟩ := assigned_of_mem_calls ha
  rw [free.kept _ _ _ known]
  simp [NameRequest.origin?, found]

/-- Under the automatic policy a request with a taken candidate is answered with the next
number of the candidate. -/
theorem numbered_mem_calls (policy : c.naming.duplicates = .auto) {qs : List NameRequest}
    {r : NameRequest} {candidate origin : String}
    (found : r.candidate c u = some (candidate, origin))
    (unknown : (after c u qs).assigned.get? (candidate, origin) = none)
    (taken : ∃ holder, (after c u qs).originOf? candidate = some holder ∧ holder ≠ origin) :
    (r, numbered c.naming candidate ((after c u qs).number candidate + 1)) ∈
      calls c u (qs ++ [r]) := by
  obtain ⟨name, t', h⟩ := assign_auto policy (after c u qs) candidate origin
  have hcompute : (after c u qs).compute c u r = some (.ok (name, t')) := by
    simp [compute, found, h]
  have hname : name = numbered c.naming candidate ((after c u qs).number candidate + 1) := by
    cases assigns_of_assign h with
    | again known => rw [unknown] at known; cases known
    | plain _ free =>
      obtain ⟨holder, held, other⟩ := taken
      exact absurd (free holder held) other
    | numbered => rfl
  rw [calls_snoc, ← hname]
  simp [serve, hcompute]

/-- Two origins come to share a name, or a name changes its origin, only where a number makes
a name that another origin holds already. -/
theorem collisionFree_iff_numbersFree (c : Config) (u : Universe) (rs : List NameRequest)
    (policy : c.naming.duplicates = .auto) : CollisionFree c u rs ↔ NumbersFree c u rs := by
  constructor
  · intro ⟨apart, _⟩ qs r hqs candidate origin found unknown taken holder held
    have hcall := calls_subset hqs (numbered_mem_calls policy found unknown taken)
    obtain ⟨a, ha, hname, horigin⟩ := mem_calls_of_originOf? held
    have hshorter : qs <+: rs := (List.prefix_append _ _).trans hqs
    have hrequest : r.origin? c u = some origin := by simp [NameRequest.origin?, found]
    by_cases same : holder = origin
    · exact same
    · refine absurd hname (apart a (calls_subset hshorter ha) _ hcall ?_)
      rw [horigin, hrequest]
      exact fun h => same (Option.some.inj h)
  · intro free
    constructor
    · intro a ha b hb other same
      apply other
      rw [← free.origin_of_call ha, ← free.origin_of_call hb, same]
    · intro qs hqs a ha
      exact (free.mono hqs).origin_of_call ha

/-- Two types of one simple name, and a third with the name that a number makes of theirs. -/
def rivals : Universe :=
  (Universe.initial .standard).insertAll
    [{ name := "com.acme.a.Item" }, { name := "com.acme.b.Item" }, { name := "com.acme.c.Item_1" }]

/-- The third type is asked for first, so that the number of the second is not free. -/
def rivalRequests : List NameRequest :=
  [{ type := .plain "com.acme.c.Item_1" }, { type := .plain "com.acme.a.Item" },
    { type := .plain "com.acme.b.Item" }]

theorem calls_rivals : (calls {} rivals rivalRequests).map (fun a => (a.1.origin? {} rivals, a.2)) =
    [(some "com.acme.c.Item_1", "Item_1"), (some "com.acme.a.Item", "Item"),
      (some "com.acme.b.Item", "Item_1")] := by
  decide +kernel

/-- Two types with different origins are both called `Item_1`. -/
theorem not_collisionFree_rivals :
    ({} : Config).naming.duplicates = .auto ∧ ¬ CollisionFree {} rivals rivalRequests := by
  refine ⟨rfl, fun h => ?_⟩
  have hmem (origin : String) (ho : (some origin, "Item_1") ∈
      (calls {} rivals rivalRequests).map fun a => (a.1.origin? {} rivals, a.2)) :
      ∃ a ∈ calls {} rivals rivalRequests, a.1.origin? {} rivals = some origin ∧
        a.2 = "Item_1" := by
    obtain ⟨a, ha, heq⟩ := List.mem_map.mp ho
    exact ⟨a, ha, congrArg Prod.fst heq, congrArg Prod.snd heq⟩
  obtain ⟨a, ha, hao, han⟩ := hmem "com.acme.c.Item_1" (by rw [calls_rivals]; decide)
  obtain ⟨b, hb, hbo, hbn⟩ := hmem "com.acme.b.Item" (by rw [calls_rivals]; decide)
  exact h.1 a ha b hb (by rw [hao, hbo]; decide) (by rw [han, hbn])

/-- The rivals collide, so their numbers are not free. -/
theorem collisionFree_iff_numbersFree_rivals :
    ({} : Config).naming.duplicates = .auto ∧
      (CollisionFree {} rivals rivalRequests ↔ NumbersFree {} rivals rivalRequests) :=
  ⟨rfl, collisionFree_iff_numbersFree {} rivals rivalRequests rfl⟩

end NameTable

end Schemata
