import Schemata.Proofs.Universe.Keys
import Schemata.Proofs.Universe.Walks

/-!
# Ancestors in the order of their visit

The lineage of a type is what a depth-first walk comes upon that enters an ancestor, then those
that lead on from it, and then what was pending besides, and that passes by each declaration that
was entered before.  Such a walk meets whatever declared type the type descends from, and none of
them twice.
-/
namespace Schemata

namespace Universe

variable {u : Universe}

/-- The ancestors that take part in the definition of an occurrence, one step above it. -/
def composedOf (u : Universe) (t : TypeRef) : List TypeRef :=
  match u.declOf? t with
  | none => []
  | some d => (u.composedParents d).map (TypeRef.substitute (u.bindings t))

/-- The name of the declaration of an occurrence. -/
def declaredName? (u : Universe) (t : TypeRef) : Option String := (u.declOf? t).map Decl.name

/-- An ancestor takes part in the definition of an occurrence, directly or by way of others. -/
def Descends (u : Universe) (t ancestor : TypeRef) : Prop :=
  Relation.TransGen (fun t parent => parent ∈ u.composedOf t) t ancestor

/-- A walk that has seen some declarations enters the pending ancestors one after the other.  It
comes upon others, in this order, and has then seen more declarations. -/
inductive Visits (u : Universe) :
    List String → List TypeRef → List TypeRef → List String → Prop where
  | done (seen : List String) : Visits u seen [] [] seen
  | undeclared {seen later : List String} {t : TypeRef} {pending found : List TypeRef}
      (unknown : u.declOf? t = none) (rest : Visits u seen pending found later) :
      Visits u seen (t :: pending) found later
  | again {seen later : List String} {t : TypeRef} {d : Decl} {pending found : List TypeRef}
      (declared : u.declOf? t = some d) (known : d.name ∈ seen)
      (rest : Visits u seen pending found later) : Visits u seen (t :: pending) found later
  | enter {seen between later : List String} {t : TypeRef} {d : Decl}
      {pending above found : List TypeRef} (declared : u.declOf? t = some d)
      (new : d.name ∉ seen) (climb : Visits u (d.name :: seen) (u.composedOf t) above between)
      (rest : Visits u between pending found later) :
      Visits u seen (t :: pending) (t :: above ++ found) later

theorem composedOf_of_declOf? {t : TypeRef} {d : Decl} (declared : u.declOf? t = some d) :
    u.composedOf t = (u.composedParents d).map (TypeRef.substitute (u.bindings t)) := by
  rw [composedOf, declared]

/-! ### What a walk comes upon -/

namespace Visits

variable {seen later : List String} {pending found : List TypeRef} {t : TypeRef} {name : String}

/-- What was seen in the end was seen at first or come upon. -/
theorem mem_later (h : u.Visits seen pending found later) :
    name ∈ later ↔ name ∈ seen ∨ ∃ a ∈ found, u.declaredName? a = some name := by
  induction h with
  | done => simp
  | undeclared _ _ ih => exact ih
  | again _ _ _ ih => exact ih
  | @enter seen _ _ t d _ above found declared _ _ _ climb rest =>
    have own : u.declaredName? t = some name ↔ name = d.name := by
      rw [declaredName?, declared, Option.map_some, Option.some.injEq, eq_comm]
    rw [rest, climb]
    simp only [List.mem_cons, List.mem_append, or_and_right, exists_or, exists_eq_left, own]
    grind

theorem seen_subset (h : u.Visits seen pending found later) : seen ⊆ later :=
  fun _ before => h.mem_later.mpr (.inl before)

/-- Nothing that was seen before is come upon. -/
theorem new (h : u.Visits seen pending found later) :
    ∀ a ∈ found, ∀ name, u.declaredName? a = some name → name ∉ seen := by
  induction h with
  | done => exact fun a ha => by cases ha
  | undeclared _ _ ih => exact ih
  | again _ _ _ ih => exact ih
  | @enter seen _ _ t d _ above found declared new climbs _ climb rest =>
    intro a ha name named before
    rcases List.mem_append.mp ha with climbed | later
    · rcases List.mem_cons.mp climbed with rfl | climbed
      · rw [declaredName?, declared] at named
        exact new (Option.some.inj named ▸ before)
      · exact climb a climbed name named (List.mem_cons_of_mem _ before)
    · exact rest a later name named (climbs.seen_subset (List.mem_cons_of_mem _ before))

/-- What is come upon is declared. -/
theorem declared (h : u.Visits seen pending found later) :
    ∀ a ∈ found, ∃ d, u.declOf? a = some d := by
  induction h with
  | done => exact fun a ha => by cases ha
  | undeclared _ _ ih => exact ih
  | again _ _ _ ih => exact ih
  | enter declared _ _ _ climb rest =>
    intro a ha
    rcases List.mem_append.mp ha with climbed | later
    · rcases List.mem_cons.mp climbed with rfl | climbed
      · exact ⟨_, declared⟩
      · exact climb a climbed
    · exact rest a later

/-- No declaration is come upon twice. -/
theorem once (h : u.Visits seen pending found later) :
    found.Pairwise fun a b => u.declaredName? a ≠ u.declaredName? b := by
  induction h with
  | done => exact .nil
  | undeclared _ _ ih => exact ih
  | again _ _ _ ih => exact ih
  | @enter seen between _ t d _ above found declared new climbs rests climb rest =>
    have own : u.declaredName? t = some d.name := by rw [declaredName?, declared, Option.map_some]
    -- Whatever comes later is not among what was seen when it is met.
    have apart {a b : TypeRef} {name : String} (named : u.declaredName? a = some name)
        (known : name ∈ between) (hb : b ∈ found) : u.declaredName? a ≠ u.declaredName? b := by
      intro same
      exact rests.new b hb name (same ▸ named) known
    refine List.pairwise_append.mpr ⟨List.pairwise_cons.mpr ⟨fun a ha same => ?_, climb⟩, rest, ?_⟩
    · exact climbs.new a ha d.name (same ▸ own) List.mem_cons_self
    · intro a ha b hb
      rcases List.mem_cons.mp ha with rfl | climbed
      · exact apart own (climbs.seen_subset List.mem_cons_self) hb
      · obtain ⟨da, hda⟩ := climbs.declared a climbed
        have named : u.declaredName? a = some da.name := by
          rw [declaredName?, hda, Option.map_some]
        exact apart named (climbs.mem_later.mpr (.inr ⟨a, climbed, named⟩)) hb

/-- Whatever is pending has been seen in the end. -/
theorem met (h : u.Visits seen pending found later) (mem : t ∈ pending)
    (named : u.declaredName? t = some name) : name ∈ later := by
  induction h with
  | done => cases mem
  | undeclared unknown _ ih =>
    rcases List.mem_cons.mp mem with rfl | mem
    · rw [declaredName?, unknown] at named
      cases named
    · exact ih mem
  | again declared known rest ih =>
    rcases List.mem_cons.mp mem with rfl | mem
    · rw [declaredName?, declared] at named
      exact rest.seen_subset (Option.some.inj named ▸ known)
    · exact ih mem
  | enter declared _ climbs rests _ rest =>
    rcases List.mem_cons.mp mem with rfl | mem
    · rw [declaredName?, declared] at named
      refine rests.seen_subset (climbs.seen_subset ?_)
      exact Option.some.inj named ▸ List.mem_cons_self
    · exact rest mem

/-- So has whatever leads on from what is come upon. -/
theorem closed (h : u.Visits seen pending found later) {a : TypeRef} (mem : a ∈ found)
    (parent : t ∈ u.composedOf a) (named : u.declaredName? t = some name) : name ∈ later := by
  induction h with
  | done => cases mem
  | undeclared _ _ ih => exact ih mem
  | again _ _ _ ih => exact ih mem
  | enter _ _ climbs rests climb rest =>
    rcases List.mem_append.mp mem with climbed | later
    · rcases List.mem_cons.mp climbed with rfl | climbed
      · exact rests.seen_subset (climbs.met parent named)
      · exact rests.seen_subset (climb climbed)
    · exact rest later

/-- What is come upon is pending or takes part in the definition of what is. -/
theorem reached (h : u.Visits seen pending found later) :
    ∀ a ∈ found, a ∈ pending ∨ ∃ t ∈ pending, u.Descends t a := by
  induction h with
  | done => exact fun a ha => by cases ha
  | undeclared _ _ ih =>
    intro a ha
    rcases ih a ha with here | ⟨t, ht, descends⟩
    · exact .inl (List.mem_cons_of_mem _ here)
    · exact .inr ⟨t, List.mem_cons_of_mem _ ht, descends⟩
  | again _ _ _ ih =>
    intro a ha
    rcases ih a ha with here | ⟨t, ht, descends⟩
    · exact .inl (List.mem_cons_of_mem _ here)
    · exact .inr ⟨t, List.mem_cons_of_mem _ ht, descends⟩
  | @enter _ _ _ first _ _ _ _ _ _ _ _ climb rest =>
    intro a ha
    rcases List.mem_append.mp ha with climbed | later
    · rcases List.mem_cons.mp climbed with rfl | climbed
      · exact .inl List.mem_cons_self
      · refine .inr ⟨first, List.mem_cons_self, ?_⟩
        rcases climb a climbed with here | ⟨t, ht, descends⟩
        · exact .single here
        · exact (Relation.TransGen.single ht).trans descends
    · rcases rest a later with here | ⟨t, ht, descends⟩
      · exact .inl (List.mem_cons_of_mem _ here)
      · exact .inr ⟨t, List.mem_cons_of_mem _ ht, descends⟩

/-- What is come upon above a type takes part in its definition. -/
theorem descends (h : u.Visits seen (u.composedOf t) found later) : ∀ a ∈ found, u.Descends t a := by
  intro a ha
  rcases h.reached a ha with parent | ⟨parent, hparent, descends⟩
  · exact .single parent
  · exact (Relation.TransGen.single hparent).trans descends

end Visits

/-! ### Steps of a walk -/

theorem unseenParents_antitone {seen later : List String} (sub : seen ⊆ later) :
    u.unseenParents later ≤ u.unseenParents seen := by
  refine sumOf_le_sumOf fun entry _ => ?_
  by_cases before : entry.2.name ∈ seen
  · simp only [if_pos before, if_pos (sub before), Nat.le_refl]
  · rw [if_neg before]
    split
    · exact Nat.zero_le _
    · exact Nat.le_refl _

/-- Entering a declaration makes its parents pending, which are no longer unseen. -/
theorem pending_le_of_enter {t : TypeRef} {d : Decl} {seen : List String} {steps : Nat}
    (declared : u.declOf? t = some d) (new : d.name ∉ seen)
    (enough : u.unseenParents seen ≤ steps) :
    (u.composedOf t).length + u.unseenParents (d.name :: seen) ≤ steps := by
  have fewer := unseenParents_cons declared new
  rw [composedOf_of_declOf? declared, List.length_map]
  omega

/-- Every walk comes to an end. -/
theorem exists_visits {steps : Nat} {seen : List String} {pending : List TypeRef}
    (enough : pending.length + u.unseenParents seen ≤ steps) :
    ∃ found later, u.Visits seen pending found later := by
  induction steps generalizing seen pending with
  | zero =>
    obtain rfl : pending = [] := List.length_eq_zero_iff.mp (by omega)
    exact ⟨[], seen, .done seen⟩
  | succ steps ih =>
    cases pending with
    | nil => exact ⟨[], seen, .done seen⟩
    | cons t pending =>
      rw [List.length_cons] at enough
      have shorter : pending.length + u.unseenParents seen ≤ steps := by omega
      cases declared : u.declOf? t with
      | none =>
        obtain ⟨found, later, rest⟩ := ih shorter
        exact ⟨found, later, .undeclared declared rest⟩
      | some d =>
        by_cases known : d.name ∈ seen
        · obtain ⟨found, later, rest⟩ := ih shorter
          exact ⟨found, later, .again declared known rest⟩
        · obtain ⟨above, between, climb⟩ := ih (pending_le_of_enter declared known (by omega))
          have fewer : u.unseenParents between ≤ u.unseenParents seen :=
            unseenParents_antitone fun name hname =>
              climb.seen_subset (List.mem_cons_of_mem _ hname)
          have left : pending.length + u.unseenParents between ≤ steps := by omega
          obtain ⟨found, later, rest⟩ := ih left
          exact ⟨t :: above ++ found, later, .enter declared known climb rest⟩

/-- What a walk comes upon is found first, and what was pending besides is found then. -/
theorem Visits.lineageFrom {seen later : List String} {pending found : List TypeRef}
    (h : u.Visits seen pending found later) {rest : List TypeRef} {steps : Nat}
    (enough : pending.length + rest.length + u.unseenParents seen ≤ steps) :
    ∃ fewer, rest.length + u.unseenParents later ≤ fewer ∧
      u.lineageFrom steps seen (pending ++ rest) = found ++ u.lineageFrom fewer later rest := by
  induction h generalizing rest steps with
  | done => exact ⟨steps, by simpa using enough, rfl⟩
  | @undeclared seen _ _ pending _ unknown _ ih =>
    rw [List.length_cons] at enough
    obtain ⟨less, rfl⟩ : ∃ less, steps = less + 1 := Nat.exists_eq_add_one.mpr (by omega)
    have shorter : pending.length + rest.length + u.unseenParents seen ≤ less := by omega
    obtain ⟨fewer, enough', same⟩ := ih shorter
    refine ⟨fewer, enough', ?_⟩
    rw [List.cons_append, Universe.lineageFrom, unknown]
    exact same
  | @again seen _ _ _ pending _ declared known _ ih =>
    rw [List.length_cons] at enough
    obtain ⟨less, rfl⟩ : ∃ less, steps = less + 1 := Nat.exists_eq_add_one.mpr (by omega)
    have shorter : pending.length + rest.length + u.unseenParents seen ≤ less := by omega
    obtain ⟨fewer, enough', same⟩ := ih shorter
    refine ⟨fewer, enough', ?_⟩
    rw [List.cons_append, Universe.lineageFrom, declared]
    dsimp only
    rw [if_pos (by simpa using known)]
    exact same
  | @enter seen between later t d pending above found declared new climbs rests climb others =>
    rw [List.length_cons] at enough
    obtain ⟨less, rfl⟩ : ∃ less, steps = less + 1 := Nat.exists_eq_add_one.mpr (by omega)
    have room := pending_le_of_enter declared new (Nat.le_refl _)
    have upward : (u.composedOf t).length + (pending ++ rest).length
        + u.unseenParents (d.name :: seen) ≤ less := by
      rw [List.length_append]
      omega
    -- What is left of the steps after the climb is enough for what was pending besides.
    obtain ⟨middle, enough', first⟩ := climb upward
    rw [List.length_append] at enough'
    obtain ⟨fewer, enough'', second⟩ := others enough'
    refine ⟨fewer, enough'', ?_⟩
    rw [List.cons_append, Universe.lineageFrom, declared]
    dsimp only
    rw [if_neg (by simpa using new), ← composedOf_of_declOf? declared, first, second]
    simp

/-- The lineage of a type is what a walk comes upon that has seen the type itself. -/
theorem exists_visits_lineage {t : TypeRef} {d : Decl} (declared : u.declOf? t = some d) :
    ∃ later, u.Visits [d.name] (u.composedOf t) (u.lineage d (u.bindings t)) later := by
  have pending := composedOf_of_declOf? declared
  have enough : (u.composedOf t).length + u.unseenParents [d.name] ≤ u.lineageSteps d := by
    rw [pending, List.length_map]
    exact u.parents_le_lineageSteps d
  obtain ⟨found, later, visits⟩ := exists_visits enough
  have alone : (u.composedOf t).length + List.length ([] : List TypeRef)
      + u.unseenParents [d.name] ≤ u.lineageSteps d := enough
  obtain ⟨fewer, -, same⟩ := visits.lineageFrom alone
  have none : u.lineageFrom fewer later [] = [] := by cases fewer <;> rfl
  rw [List.append_nil, none, List.append_nil, pending] at same
  rw [lineage, same]
  exact ⟨later, visits⟩

/-! ### The lineage -/

/-- What takes part in a definition is declared as a record or an interface. -/
theorem declared_of_mem_composedOf {t ancestor : TypeRef} (h : ancestor ∈ u.composedOf t) :
    ∃ d, u.declOf? ancestor = some d ∧ (d.kind = .record ∨ d.kind = .interface) := by
  unfold composedOf at h
  split at h
  · cases h
  · obtain ⟨parent, hparent, rfl⟩ := List.mem_map.mp h
    have composable := (mem_composedParents hparent).2
    obtain ⟨own, declared, substituted⟩ := declared_of_isComposable composable (u.bindings t)
    refine ⟨own, substituted, ?_⟩
    rw [isComposable, kindOf_of_declOf? declared, kindOfDecl] at composable
    cases kind : own.kind with
    | record => exact .inl rfl
    | interface => exact .inr rfl
    | _ =>
      rw [kind] at composable
      cases composable

theorem declared_of_descends {t ancestor : TypeRef} (h : u.Descends t ancestor) :
    ∃ d, u.declOf? ancestor = some d ∧ (d.kind = .record ∨ d.kind = .interface) := by
  cases h with
  | single parent => exact declared_of_mem_composedOf parent
  | tail _ parent => exact declared_of_mem_composedOf parent

/-- Whatever the arguments of an occurrence are, its ancestors have the same declarations. -/
theorem exists_mem_composedOf {t other ancestor : TypeRef} (same : u.declOf? t = u.declOf? other)
    (h : ancestor ∈ u.composedOf t) :
    ∃ corresponding ∈ u.composedOf other, u.declOf? corresponding = u.declOf? ancestor := by
  cases declared : u.declOf? t with
  | none =>
    rw [composedOf, declared] at h
    cases h
  | some d =>
    rw [composedOf_of_declOf? declared] at h
    obtain ⟨parent, hparent, rfl⟩ := List.mem_map.mp h
    have composable := (mem_composedParents hparent).2
    obtain ⟨_, found, substituted⟩ := declared_of_isComposable composable (u.bindings t)
    obtain ⟨_, found', substituted'⟩ := declared_of_isComposable composable (u.bindings other)
    refine ⟨parent.substitute (u.bindings other), ?_, ?_⟩
    · rw [composedOf_of_declOf? (same.symm.trans declared)]
      exact List.mem_map_of_mem hparent
    · rw [substituted, substituted', ← found, found']

/-- The name of a declaration tells which one it is. -/
theorem Keyed.declOf?_eq (keyed : u.Keyed) {t other : TypeRef} {name : String}
    (h : u.declaredName? t = some name) (h' : u.declaredName? other = some name) :
    u.declOf? t = u.declOf? other := by
  obtain ⟨d, declared, rfl⟩ := Option.map_eq_some_iff.mp h
  obtain ⟨d', declared', same⟩ := Option.map_eq_some_iff.mp h'
  obtain ⟨key, -, hget⟩ := Option.bind_eq_some_iff.mp declared
  obtain ⟨key', -, hget'⟩ := Option.bind_eq_some_iff.mp declared'
  rw [declared, declared', ← hget, ← hget', ← keyed _ _ hget, ← keyed _ _ hget', same]

/-- All declared ancestors that take part in the definition of an occurrence, in the order in which a
walk enters them: each of them once, and never the declaration itself. -/
structure IsLineage (u : Universe) (t : TypeRef) (d : Decl) (ancestors : List TypeRef) : Prop where
  preorder : ∃ later, u.Visits [d.name] (u.composedOf t) ancestors later
  once : ancestors.Pairwise fun a b => u.declaredName? a ≠ u.declaredName? b
  complete (name : String) : (∃ a ∈ ancestors, u.declaredName? a = some name) ↔
    name ≠ d.name ∧ ∃ a, u.Descends t a ∧ u.declaredName? a = some name

variable {t : TypeRef} {d : Decl}

/-- A walk sees all from which the type descends. -/
theorem Keyed.mem_later_of_descends (keyed : u.Keyed) (declared : u.declOf? t = some d)
    {found : List TypeRef} {later : List String}
    (visits : u.Visits [d.name] (u.composedOf t) found later) {ancestor : TypeRef}
    (h : u.Descends t ancestor) {name : String} (named : u.declaredName? ancestor = some name) :
    name ∈ later := by
  have own : u.declaredName? t = some d.name := by rw [declaredName?, declared, Option.map_some]
  induction h generalizing name with
  | single parent => exact visits.met parent named
  | @tail child ancestor descends parent ih =>
    obtain ⟨below, hbelow, -⟩ := declared_of_descends descends
    have childNamed : u.declaredName? child = some below.name := by
      rw [declaredName?, hbelow, Option.map_some]
    have sameName {other : TypeRef} (same : u.declOf? other = u.declOf? ancestor) :
        u.declaredName? other = some name := by rw [declaredName?, same, ← named, declaredName?]
    rcases visits.mem_later.mp (ih childNamed) with self | ⟨entered, mem, enteredNamed⟩
    -- The child is the type itself, whose ancestors were pending at first.
    · rw [List.mem_singleton.mp self] at childNamed
      obtain ⟨corresponding, pending, same⟩ :=
        exists_mem_composedOf (keyed.declOf?_eq childNamed own) parent
      exact visits.met pending (sameName same)
    · obtain ⟨corresponding, leads, same⟩ :=
        exists_mem_composedOf (keyed.declOf?_eq childNamed enteredNamed) parent
      exact visits.closed mem leads (sameName same)

theorem Keyed.isLineage (keyed : u.Keyed) (declared : u.declOf? t = some d) :
    u.IsLineage t d (u.lineage d (u.bindings t)) := by
  obtain ⟨later, visits⟩ := exists_visits_lineage declared
  refine ⟨⟨later, visits⟩, visits.once, fun name => ⟨?_, ?_⟩⟩
  · rintro ⟨a, ha, named⟩
    exact ⟨fun same => visits.new a ha name named (List.mem_singleton.mpr same), a,
      visits.descends a ha, named⟩
  · rintro ⟨other, a, descends, named⟩
    have seen := keyed.mem_later_of_descends declared visits descends named
    exact (visits.mem_later.mp seen).resolve_left fun self => other (List.mem_singleton.mp self)

end Universe

end Schemata
