import Mathlib.Logic.Relation
import Schemata.Proofs.Schema.Following
import Schemata.Proofs.Schema.Properties

/-!
# Collecting properties

The properties of a schema are those of all that it is composed of: of its inline parts, and of
the definitions that its parts refer to.  No name is visited twice, and no property is lost by
that, because whatever was visited was collected from then on, with all that it is composed of.
-/
namespace Schemata

namespace Registry

variable (r : Registry)

/-- A reference stands for the definition behind it, and any other schema for itself. -/
def target? (s : Schema) : Option Schema := if s.isRef then r.resolve? s else some s

/-- A part of the first schema stands for the second one. -/
def Composes (s t : Schema) : Prop := ∃ part ∈ s.allOf, r.target? part = some t

/-- The second schema takes part in what the first one stands for. -/
def Collects (s x : Schema) : Prop :=
  ∃ t, r.target? s = some t ∧ Relation.ReflTransGen r.Composes t x

variable {r}

theorem target?_of_inline {s : Schema} (inline : s.isRef = false) : r.target? s = some s := by
  rw [target?, inline, if_neg Bool.false_ne_true]

theorem target?_of_refName? {s : Schema} {name : String} (named : s.refName? = some name) :
    r.target? s = r.get? name := by
  rw [target?, Schema.isRef_of_refName? named, if_pos rfl, resolve?, named, Option.bind_some]

/-- What a reference stands for is registered under its name. -/
theorem exists_of_target? {s t : Schema} (h : r.target? s = some t) :
    (s.isRef = false ∧ t = s) ∨ ∃ name, s.refName? = some name ∧ r.get? name = some t := by
  unfold target? at h
  split at h
  · exact .inr (Option.bind_eq_some_iff.mp h)
  · rename_i inline
    exact .inl ⟨Bool.eq_false_iff.mpr inline, (Option.some.inj h).symm⟩

end Registry

namespace Schema

variable {r : Registry} {f : Follow} {found found' : List Property} {seen later : List String}
  {s t x : Schema} {name : String}

/-! ### Nothing else is collected -/

/-- What is found behind a reference belongs to something that takes part in it. -/
def FindsCollected (r : Registry) (f : Follow) : Prop :=
  ∀ name seen, ∀ p ∈ (f name seen).1, ∃ t, r.get? name = some t ∧
    ∃ x, Relation.ReflTransGen r.Composes t x ∧ p ∈ ownProperties x.properties x.required

mutual

theorem collects_of_mem_propertiesWith (hf : FindsCollected r f) :
    (s : Schema) → (seen : List String) → ∀ p ∈ (propertiesWith f s seen).1,
      ∃ x, r.Collects s x ∧ p ∈ ownProperties x.properties x.required
  | ⟨name, none, type, labels, facets, items, properties, required, additional, allOf, oneOf,
      anyOf, not⟩, seen => by
    intro p hp
    rcases List.mem_append.mp hp with inner | own
    · obtain ⟨part, hpart, x, ⟨t, stands, reach⟩, own⟩ :=
        collects_of_mem_propertiesOfAll hf allOf seen p inner
      exact ⟨x, ⟨_, Registry.target?_of_inline rfl, .head ⟨part, hpart, stands⟩ reach⟩, own⟩
    · exact ⟨_, ⟨_, Registry.target?_of_inline rfl, .refl⟩, own⟩
  | ⟨_, some path, _, _, _, _, _, _, _, _, _, _, _⟩, seen => by
    intro p hp
    unfold propertiesWith at hp
    dsimp only at hp
    split at hp
    · rename_i name named
      obtain ⟨t, registered, x, reach, own⟩ := hf name seen p hp
      exact ⟨x, ⟨t, (Registry.target?_of_refName? named).trans registered, reach⟩, own⟩
    · cases hp

theorem collects_of_mem_propertiesOfAll (hf : FindsCollected r f) :
    (all : List Schema) → (seen : List String) → ∀ p ∈ (propertiesOfAll f all seen).1,
      ∃ s ∈ all, ∃ x, r.Collects s x ∧ p ∈ ownProperties x.properties x.required
  | [], _ => fun _ hp => by cases hp
  | s :: rest, seen => by
    intro p hp
    rcases List.mem_append.mp hp with first | others
    · exact ⟨s, List.mem_cons_self, collects_of_mem_propertiesWith hf s seen p first⟩
    · obtain ⟨part, hpart, collected⟩ := collects_of_mem_propertiesOfAll hf rest _ p others
      exact ⟨part, List.mem_cons_of_mem _ hpart, collected⟩

end

theorem findsCollected_follow (r : Registry) (hops : Nat) : FindsCollected r (follow r hops) := by
  induction hops with
  | zero => exact fun name seen p hp => by cases hp
  | succ hops ih =>
    intro name seen p hp
    rw [follow] at hp
    split at hp
    · cases hp
    · split at hp
      · cases hp
      · rename_i target registered
        refine ⟨target, registered, ?_⟩
        rcases List.mem_append.mp hp with inner | own
        · obtain ⟨part, hpart, x, ⟨t, stands, reach⟩, own⟩ :=
            collects_of_mem_propertiesOfAll ih _ _ p inner
          exact ⟨x, .head ⟨part, hpart, stands⟩ reach, own⟩
        · exact ⟨target, .refl, own⟩

/-! ### Nothing is lost -/

/-- The properties of a schema and of its inline parts were found, and the names that they refer
to were met. -/
inductive Gathered (found : List Property) (seen : List String) : Schema → Prop where
  | intro {s : Schema} (own : ownProperties s.properties s.required ⊆ found)
      (inline : ∀ part ∈ s.allOf, part.isRef = false → Gathered found seen part)
      (met : ∀ part ∈ s.allOf, ∀ name, part.refName? = some name → name ∈ seen) :
      Gathered found seen s

theorem Gathered.mono (h : Gathered found seen s) (more : found ⊆ found') (sub : seen ⊆ later) :
    Gathered found' later s := by
  induction h with
  | intro own _ met ih =>
    exact .intro (List.Subset.trans own more) ih fun part hpart name named =>
      sub (met part hpart name named)

/-- What was gathered behind the names that a walk has met since. -/
def Explored (r : Registry) (seen : List String) (found : List Property) (later : List String) :
    Prop :=
  ∀ name ∈ later, name ∉ seen → ∀ t, r.get? name = some t → Gathered found later t

/-- A walk over some schemas gathers those that are inline, meets the names of the others, and
gathers whatever it meets for the first time. -/
structure Walked (r : Registry) (seen : List String) (all : List Schema) (found : List Property)
    (later : List String) : Prop where
  inline : ∀ s ∈ all, s.isRef = false → Gathered found later s
  met : ∀ s ∈ all, ∀ name, s.refName? = some name → name ∈ later
  explored : Explored r seen found later

/-- Following a name that comes up after some others meets it, and gathers what is new. -/
def Explores (r : Registry) (f : Follow) (seen : List String) : Prop :=
  ∀ name later, seen ⊆ later →
    name ∈ (f name later).2 ∧ Explored r later (f name later).1 (f name later).2

theorem Explores.mono (h : Explores r f seen) (sub : seen ⊆ later) : Explores r f later :=
  fun name last hlast => h name last (List.Subset.trans sub hlast)

theorem Explored.mono (h : Explored r seen found later) (more : found ⊆ found') :
    Explored r seen found' later :=
  fun name met new t registered =>
    (h name met new t registered).mono more (List.Subset.refl _)

/-- Own properties complete what was gathered from the parts. -/
theorem Walked.gathered (h : Walked r seen s.allOf found later) :
    Gathered (found ++ ownProperties s.properties s.required) later s :=
  .intro (List.subset_append_right _ _)
    (fun part hpart inline =>
      (h.inline part hpart inline).mono (List.subset_append_left _ _) (List.Subset.refl _))
    h.met

theorem Walked.cons {all : List Schema} {between : List String}
    (first : Walked r seen [s] found between) (rest : Walked r between all found' later)
    (sub : between ⊆ later) : Walked r seen (s :: all) (found ++ found') later := by
  have grown {t : Schema} (h : Gathered found between t) : Gathered (found ++ found') later t :=
    h.mono (List.subset_append_left _ _) sub
  have kept {t : Schema} (h : Gathered found' later t) : Gathered (found ++ found') later t :=
    h.mono (List.subset_append_right _ _) (List.Subset.refl _)
  refine ⟨fun t ht inline => ?_, fun t ht name named => ?_, fun name met new t registered => ?_⟩
  · rcases List.mem_cons.mp ht with rfl | ht
    · exact grown (first.inline t List.mem_cons_self inline)
    · exact kept (rest.inline t ht inline)
  · rcases List.mem_cons.mp ht with rfl | ht
    · exact sub (first.met t List.mem_cons_self name named)
    · exact rest.met t ht name named
  · by_cases before : name ∈ between
    · exact grown (first.explored name before new t registered)
    · exact kept (rest.explored name met before t registered)

mutual

theorem walked_propertiesWith (hf : Remembers f) :
    (s : Schema) → {seen : List String} → Explores r f seen →
      Walked r seen [s] (propertiesWith f s seen).1 (propertiesWith f s seen).2
  | ⟨name, none, type, labels, facets, items, properties, required, additional, allOf, oneOf,
      anyOf, not⟩, seen, explores => by
    have parts := walked_propertiesOfAll hf allOf explores
    refine ⟨fun s hs _ => ?_, fun s hs name named => ?_, ?_⟩
    · rw [List.mem_singleton.mp hs]
      exact Walked.gathered (s := ⟨name, none, type, labels, facets, items, properties, required,
        additional, allOf, oneOf, anyOf, not⟩) parts
    · rw [List.mem_singleton.mp hs] at named
      cases named
    · exact parts.explored.mono (List.subset_append_left _ _)
  | ⟨_, some path, _, _, _, _, _, _, _, _, _, _, _⟩, seen, explores => by
    unfold propertiesWith
    dsimp only
    refine ⟨fun s hs inline => ?_, fun s hs name named => ?_, ?_⟩
    · rw [List.mem_singleton.mp hs] at inline
      cases inline
    · rw [List.mem_singleton.mp hs] at named
      change ({ ref := some path } : Schema).refName? = some name at named
      rw [named]
      exact (explores name seen (List.Subset.refl _)).1
    · split
      · exact (explores _ seen (List.Subset.refl _)).2
      · exact fun name met new => absurd met new

theorem walked_propertiesOfAll (hf : Remembers f) :
    (all : List Schema) → {seen : List String} → Explores r f seen →
      Walked r seen all (propertiesOfAll f all seen).1 (propertiesOfAll f all seen).2
  | [], seen, _ =>
    ⟨fun _ hs => (by cases hs), fun _ hs => (by cases hs), fun _ met new => absurd met new⟩
  | s :: rest, seen, explores => by
    have first := remembers_propertiesWith hf s seen
    exact (walked_propertiesWith hf s explores).cons
      (walked_propertiesOfAll hf rest (explores.mono first)) (remembers_propertiesOfAll hf rest _)

end

/-- As long as every hop meets a further schema, following a name explores what is behind it. -/
theorem explores_follow {hops : Nat} (enough : r.schemas.unseen seen < hops) :
    Explores r (follow r hops) seen := by
  induction hops generalizing seen with
  | zero => exact absurd enough (Nat.not_lt_zero _)
  | succ hops ih =>
    intro name later sub
    rw [follow]
    split
    · rename_i known
      exact ⟨List.contains_iff_mem.mp known, fun name met new => absurd met new⟩
    · rename_i new
      split
      · rename_i missing
        refine ⟨List.mem_cons_self, fun other met unseen t registered => ?_⟩
        obtain rfl := (List.mem_cons.mp met).resolve_right unseen
        cases missing.symm.trans registered
      · rename_i target registered
        have fewer := Assoc.unseen_lt (Assoc.mem_of_get? registered)
          (List.subset_cons_self name later) (by simpa using new) List.mem_cons_self
        have within := Assoc.unseen_antitone (m := r.schemas) sub
        have deeper : Explores r (follow r hops) (name :: later) := ih (by omega)
        have parts := walked_propertiesOfAll (remembers_follow r hops) target.allOf deeper
        have kept := remembers_propertiesOfAll (remembers_follow r hops) target.allOf
          (name :: later)
        refine ⟨kept List.mem_cons_self, fun other met unseen t registered' => ?_⟩
        by_cases same : other = name
        · obtain rfl : t = target := by
            rw [same, registered] at registered'
            exact (Option.some.inj registered').symm
          exact parts.gathered
        · have further : other ∉ name :: later := fun h =>
            (List.mem_cons.mp h).elim same unseen
          exact (parts.explored other met further t registered').mono
            (List.subset_append_left _ _) (List.Subset.refl _)

/-- What a gathered schema is composed of was gathered too. -/
theorem Gathered.composes (explored : Explored r [] found seen) (h : Gathered found seen s)
    (step : r.Composes s t) : Gathered found seen t := by
  obtain ⟨part, hpart, stands⟩ := step
  cases h with
  | intro _ inline met =>
    rcases Registry.exists_of_target? stands with ⟨own, rfl⟩ | ⟨name, named, registered⟩
    · exact inline t hpart own
    · exact explored name (met part hpart name named) List.not_mem_nil t registered

/-- The properties of a schema are those of all that takes part in it. -/
theorem mem_allProperties_iff {p : Property} : p ∈ s.allProperties r ↔
    ∃ x, r.Collects s x ∧ p ∈ ownProperties x.properties x.required := by
  constructor
  · exact collects_of_mem_propertiesWith (findsCollected_follow r _) s [] p
  · rintro ⟨x, ⟨t, stands, reach⟩, own⟩
    obtain ⟨later, walked⟩ : ∃ later, Walked r [] [s] (s.allProperties r) later :=
      ⟨_, walked_propertiesWith (remembers_follow r _) s
        (explores_follow (Nat.lt_succ_of_le (Assoc.unseen_le_length r.schemas [])))⟩
    have start : Gathered (s.allProperties r) later t := by
      rcases Registry.exists_of_target? stands with ⟨inline, rfl⟩ | ⟨name, named, registered⟩
      · exact walked.inline t List.mem_cons_self inline
      · exact walked.explored name (walked.met s List.mem_cons_self name named) List.not_mem_nil t
          registered
    have gathered : Gathered (s.allProperties r) later x := by
      clear own
      induction reach with
      | refl => exact start
      | tail _ step ih => exact ih.composes walked.explored step
    cases gathered with
    | intro owns => exact owns own

/-- What takes part in a schema lists its properties with the schema, or was registered. -/
theorem lists_of_composes {property : String × Schema}
    (reach : Relation.ReflTransGen r.Composes t x) (own : property ∈ x.properties) :
    t.Lists property ∨ r.Lists property := by
  induction reach using Relation.ReflTransGen.head_induction_on with
  | refl => exact .inl (.own own)
  | head step _ ih =>
    obtain ⟨part, hpart, stands⟩ := step
    refine ih.elim (fun listed => ?_) .inr
    rcases Registry.exists_of_target? stands with ⟨inline, rfl⟩ | ⟨name, -, registered⟩
    · exact .inl (.part hpart inline listed)
    · exact .inr ⟨_, Assoc.mem_of_get? registered, listed⟩

/-- The properties of a schema are listed by itself, unless it is a reference, or by what is
registered. -/
theorem lists_of_mem_allProperties {p : Property} (h : p ∈ s.allProperties r) :
    (s.isRef = false ∧ s.Lists (p.name, p.schema)) ∨ r.Lists (p.name, p.schema) := by
  obtain ⟨x, ⟨t, stands, reach⟩, own⟩ := mem_allProperties_iff.mp h
  obtain ⟨pair, hpair, rfl⟩ := List.mem_map.mp own
  refine (lists_of_composes reach hpair).elim (fun listed => ?_) .inr
  rcases Registry.exists_of_target? stands with ⟨inline, rfl⟩ | ⟨name, -, registered⟩
  · exact .inl ⟨inline, listed⟩
  · exact .inr ⟨_, Assoc.mem_of_get? registered, listed⟩

/-! ### What is there and what is required -/

/-- The schema has a property of the name, by itself or in a part that is no reference. -/
def Has (s : Schema) (name : String) : Prop := ∃ value, s.Lists (name, value)

/-- The schema requires the name, by itself or in a part that is no reference. -/
inductive Requires : Schema → String → Prop where
  | own {s : Schema} {name : String} (h : name ∈ s.required) : Requires s name
  | part {s part : Schema} {name : String} (h : part ∈ s.allOf) (inline : part.isRef = false)
      (inner : Requires part name) : Requires s name

/-- What decides which properties a schema has and which names it requires. -/
def makeup (s : Schema) : List (String × Schema) × List String × List Schema :=
  (s.properties, s.required, s.allOf)

theorem makeup_eq_iff : t.makeup = s.makeup ↔
    t.properties = s.properties ∧ t.required = s.required ∧ t.allOf = s.allOf := by
  simp [makeup]

theorem Requires.congr (h : s.Requires name) (same : t.makeup = s.makeup) : t.Requires name := by
  obtain ⟨-, required, parts⟩ := makeup_eq_iff.mp same
  cases h with
  | own h => exact .own (required ▸ h)
  | part h inline inner => exact .part (parts ▸ h) inline inner

/-- Where all parts are references, a schema requires the names that it requires by itself. -/
theorem Requires.of_references (h : s.Requires name)
    (references : ∀ part ∈ s.allOf, part.isRef = true) : name ∈ s.required := by
  cases h with
  | own h => exact h
  | part h inline =>
    rw [references _ h] at inline
    cases inline

/-- Own properties that become a part are listed as before. -/
theorem lists_settled {property : String × Schema} (h : property ∈ s.properties) :
    s.settled.Lists property := by
  unfold settled
  split
  · exact .own h
  · split
    · exact .own h
    · exact .part (List.mem_append_right _ (List.mem_singleton_self _)) rfl (.own h)

theorem requires_settled (h : name ∈ s.required) : s.settled.Requires name := by
  unfold settled
  split
  · exact .own h
  · split
    · exact .own h
    · exact .part (List.mem_append_right _ (List.mem_singleton_self _)) rfl (.own h)

theorem Requires.of_settled (h : s.settled.Requires name) : s.Requires name := by
  unfold settled at h
  split at h
  · exact h
  · split at h
    · exact h.congr rfl
    · cases h with
      | own h => cases h
      | part h inline inner =>
        rcases List.mem_append.mp h with old | last
        · exact .part old inline inner
        · rw [List.mem_singleton.mp last] at inner
          exact .own (inner.of_references fun _ none => by cases none)

end Schema

/-! ### What a definition leads to -/

namespace Registry

variable {r z : Registry} {s t w x : Schema}

/-- A schema leads to its parts and to the definition that it refers to. -/
def LeadsTo (r : Registry) (s t : Schema) : Prop := t ∈ s.allOf ∨ r.resolve? s = some t

/-- A schema reaches what it leads to, directly or by way of others, and itself. -/
def Reaches (r : Registry) (s x : Schema) : Prop := Relation.ReflTransGen r.LeadsTo s x

theorem isRef_of_resolve? (h : r.resolve? s = some t) : s.isRef = true := by
  obtain ⟨name, named, -⟩ := Option.bind_eq_some_iff.mp h
  exact Schema.isRef_of_refName? named

theorem target?_of_resolve? (h : r.resolve? s = some t) : r.target? s = some t := by
  rw [target?, isRef_of_resolve? h, if_pos rfl, h]

/-- What is registered under a name stays. -/
theorem resolve?_of_earlier (earlier : r.schemas <+: z.schemas) (h : r.resolve? s = some t) :
    z.resolve? s = some t := by
  obtain ⟨name, named, registered⟩ := Option.bind_eq_some_iff.mp h
  obtain ⟨later, same⟩ := earlier
  refine Option.bind_eq_some_iff.mpr ⟨name, named, ?_⟩
  rw [get?] at registered ⊢
  rw [← same, Assoc.get?_append, registered, Option.some_or]

theorem Composes.reaches (earlier : r.schemas <+: z.schemas) (h : r.Composes s t) :
    z.Reaches s t := by
  obtain ⟨part, hpart, stands⟩ := h
  have first : z.LeadsTo s part := .inl hpart
  unfold target? at stands
  split at stands
  · exact .tail (.single first) (.inr (resolve?_of_earlier earlier stands))
  · exact Option.some.inj stands ▸ .single first

/-- What was collected behind a reference is reached from the definition behind it. -/
theorem Collects.reaches (earlier : r.schemas <+: z.schemas) (defined : z.resolve? s = some w)
    (h : r.Collects s x) : z.Reaches w x := by
  obtain ⟨t, stands, reach⟩ := h
  have same : t = w := by
    rw [target?, isRef_of_resolve? defined, if_pos rfl] at stands
    exact Option.some.inj ((resolve?_of_earlier earlier stands).symm.trans defined)
  subst same
  clear stands defined
  induction reach with
  | refl => exact .refl
  | tail _ step ih => exact ih.trans (step.reaches earlier)

/-- All that the definition behind a reference leads to in the end was registered earlier.  None
of these definitions is a reference, and no reference says anything else. -/
structure Finished (r z : Registry) (s w : Schema) : Prop where
  defined : r.resolve? s = some w
  inline : w.isRef = false
  registered {x t : Schema} : z.Reaches w x → z.resolve? x = some t → r.resolve? x = some t
  definition {x t : Schema} : z.Reaches w x → z.resolve? x = some t → t.isRef = false
  pointer {x : Schema} : z.Reaches w x → x.isRef = true → x.properties = [] ∧ x.allOf = []

/-- Then all that is reached is collected, but for the references on the way. -/
theorem Finished.collects (h : Finished r z s w) (reach : z.Reaches w x)
    (inline : x.isRef = false) : r.Collects s x := by
  -- A reference has nothing below it, so that it was met as a part of what was collected.
  have met : (x.isRef = false ∧ Relation.ReflTransGen r.Composes w x) ∨
      x.isRef = true ∧ ∃ u, Relation.ReflTransGen r.Composes w u ∧ x ∈ u.allOf := by
    clear inline
    induction reach with
    | refl => exact .inl ⟨h.inline, .refl⟩
    | @tail u x reach leads ih =>
      rcases ih with ⟨inline, above⟩ | ⟨ref, v, above, hpart⟩
      · rcases leads with hpart | defined
        · cases ref : x.isRef with
          | false => exact .inl ⟨rfl, above.tail ⟨x, hpart, target?_of_inline ref⟩⟩
          | true => exact .inr ⟨rfl, u, above, hpart⟩
        · cases inline.symm.trans (isRef_of_resolve? defined)
      · rcases leads with none | defined
        · rw [(h.pointer reach ref).2] at none
          cases none
        · have target := target?_of_resolve? (h.registered reach defined)
          exact .inl ⟨h.definition reach defined, above.tail ⟨u, hpart, target⟩⟩
  rcases met with ⟨-, above⟩ | ⟨ref, -⟩
  · exact ⟨w, target?_of_resolve? h.defined, above⟩
  · cases ref.symm.trans inline

end Registry

end Schemata
