import Mathlib.Data.Finset.Card
import Mathlib.Logic.Relation
import Schemata.Proofs.Universe.Keys
import Schemata.Proofs.Universe.Reachability

/-!
# Searches through the ancestry

Whether a type descends from another one, and whether it or an ancestor has a member, can be
searched for with a stack of what is pending and a set of what was seen.  An item may be pending
more than once, and is only entered when it is taken off the stack.  Such a search ends, because a
turn meets a new key or makes the stack shorter.  It misses nothing, because whatever the first
item leads to was seen, is pending, or is behind what is pending.
-/
namespace Schemata

open Relation

/-- A search takes the top item off its stack and, unless the item is a hit or its key was seen,
puts on the stack what the item leads to. -/
structure Search (α : Type) where
  key : α → String
  /-- Whether an item is a hit after these keys were seen. -/
  isHit : Finset String → α → Bool
  /-- What an item leads to.  The last of it comes to the top of the stack. -/
  next : α → List α

namespace Search

/-- The keys that were seen, and the stack from its top. -/
structure State (α : Type) where
  seen : Finset String
  pending : List α

variable {α : Type}

/-- Nothing was seen, and one item is pending. -/
def State.initial (first : α) : State α := ⟨∅, [first]⟩

variable (s : Search α)

/-- A turn of the search comes to another state or to an answer. -/
def turn : State α → State α ⊕ Bool
  | ⟨_, []⟩ => .inr false
  | ⟨seen, item :: pending⟩ =>
    if s.isHit seen item then .inr true
    else if s.key item ∈ seen then .inl ⟨seen, pending⟩
    else .inl ⟨insert (s.key item) seen, (s.next item).reverse ++ pending⟩

/-- Turn by turn, the search comes from a state to an answer. -/
inductive Ends : State α → Bool → Prop where
  | answer {st : State α} {answer : Bool} (h : s.turn st = .inr answer) : Ends st answer
  | turn {st later : State α} {answer : Bool} (h : s.turn st = .inl later)
      (rest : Ends later answer) : Ends st answer

/-- An item leads to another one in some number of steps. -/
def Leads : α → α → Prop := ReflTransGen fun x y => y ∈ s.next x

variable {s} {st later : State α}

/-! ### Turns -/

theorem cases_of_turn_inr {answer : Bool} (h : s.turn st = .inr answer) :
    (st.pending = [] ∧ answer = false) ∨
      ∃ item ∈ st.pending, s.isHit st.seen item = true ∧ answer = true := by
  obtain ⟨seen, pending⟩ := st
  cases pending with
  | nil => exact .inl ⟨rfl, (Sum.inr.inj h).symm⟩
  | cons item pending =>
    rw [turn] at h
    split at h
    · rename_i hit
      exact .inr ⟨item, List.mem_cons_self, hit, (Sum.inr.inj h).symm⟩
    · split at h <;> cases h

theorem cases_of_turn_inl (h : s.turn st = .inl later) : ∃ item pending,
    st.pending = item :: pending ∧ s.isHit st.seen item = false ∧
      ((s.key item ∈ st.seen ∧ later = ⟨st.seen, pending⟩) ∨
        (s.key item ∉ st.seen ∧
          later = ⟨insert (s.key item) st.seen, (s.next item).reverse ++ pending⟩)) := by
  obtain ⟨seen, pending⟩ := st
  cases pending with
  | nil => cases h
  | cons item pending =>
    refine ⟨item, pending, rfl, ?_⟩
    rw [turn] at h
    split at h
    · cases h
    · rename_i miss
      refine ⟨Bool.eq_false_iff.mpr miss, ?_⟩
      split at h
      · rename_i old
        exact .inl ⟨old, (Sum.inl.inj h).symm⟩
      · rename_i new
        exact .inr ⟨new, (Sum.inl.inj h).symm⟩

/-! ### What is searched for -/

/-- Some items lead to no others, are told apart by their keys, of which there are finitely many,
and are hits if they are sought and were not seen. -/
structure Seeks (s : Search α) (items sought : α → Prop) (keys : Finset String) : Prop where
  next {x y : α} : items x → y ∈ s.next x → items y
  apart {x y : α} : items x → items y → s.key x = s.key y → x = y
  mem_keys {x : α} : items x → s.key x ∈ keys
  sought_of_isHit {seen : Finset String} {x : α} : s.isHit seen x = true → sought x
  isHit_of_sought {seen : Finset String} {x : α} :
    sought x → s.key x ∉ seen → s.isHit seen x = true

/-- From whatever state it starts, the search comes to an end. -/
theorem Seeks.exists_ends {items sought : α → Prop} {keys : Finset String}
    (h : s.Seeks items sought keys) {seen : Finset String} {pending : List α}
    (known : ∀ x ∈ pending, items x) : ∃ answer, s.Ends ⟨seen, pending⟩ answer := by
  -- A turn either meets one of the keys that are left, or leaves them and shortens the stack.
  induction left : (keys \ seen).card using Nat.strongRecOn generalizing seen pending with
  | ind size fewer =>
    induction pending with
    | nil => exact ⟨false, .answer rfl⟩
    | cons item pending shorter =>
      obtain ⟨own, known⟩ := List.forall_mem_cons.mp known
      by_cases hit : s.isHit seen item = true
      · exact ⟨true, .answer (by rw [turn, if_pos hit])⟩
      · by_cases old : s.key item ∈ seen
        · obtain ⟨answer, rest⟩ := shorter known
          exact ⟨answer, .turn (by rw [turn, if_neg hit, if_pos old]) rest⟩
        · have less : (keys \ insert (s.key item) seen).card < size := by
            rw [Finset.sdiff_insert, ← left]
            exact Finset.card_erase_lt_of_mem (Finset.mem_sdiff.mpr ⟨h.mem_keys own, old⟩)
          have known' : ∀ x ∈ (s.next item).reverse ++ pending, items x :=
            List.forall_mem_append.mpr ⟨fun x hx => h.next own (List.mem_reverse.mp hx), known⟩
          obtain ⟨answer, rest⟩ := fewer _ less known' rfl
          exact ⟨answer, .turn (by rw [turn, if_neg hit, if_neg old]) rest⟩

/-! ### What is missed -/

/-- An item is pending, or its key was seen. -/
def Met (s : Search α) (st : State α) (x : α) : Prop := s.key x ∈ st.seen ∨ x ∈ st.pending

theorem Met.turn {x : α} (met : s.Met st x) (h : s.turn st = .inl later) : s.Met later x := by
  obtain ⟨item, pending, hpending, -, ⟨old, rfl⟩ | ⟨-, rfl⟩⟩ := cases_of_turn_inl h
  · refine met.elim .inl fun waits => ?_
    rcases List.mem_cons.mp (hpending ▸ waits) with rfl | waits
    · exact .inl old
    · exact .inr waits
  · refine met.elim (fun before => .inl (Finset.mem_insert_of_mem before)) fun waits => ?_
    rcases List.mem_cons.mp (hpending ▸ waits) with rfl | waits
    · exact .inl (Finset.mem_insert_self _ _)
    · exact .inr (List.mem_append_right _ waits)

/-- In a search from an item, what is pending was led to, and nothing that was seen is sought.
Whatever is led to by what was seen is met. -/
structure Upholds (s : Search α) (items sought : α → Prop) (first : α) (st : State α) : Prop where
  pending : ∀ x ∈ st.pending, items x ∧ s.Leads first x
  first : s.Met st first
  seen : ∀ x, items x → s.key x ∈ st.seen → ¬ sought x ∧ ∀ y ∈ s.next x, s.Met st y

theorem upholds_initial {items sought : α → Prop} {first : α} (known : items first) :
    s.Upholds items sought first (.initial first) where
  pending x hx := by
    rw [List.mem_singleton.mp hx]
    exact ⟨known, .refl⟩
  first := .inr (List.mem_singleton_self _)
  seen _ _ before := absurd before (Finset.notMem_empty _)

namespace Upholds

variable {items sought : α → Prop} {keys : Finset String} {first : α}

/-- One turn keeps this. -/
theorem turn (h : s.Seeks items sought keys) (upholds : s.Upholds items sought first st)
    (next : s.turn st = .inl later) : s.Upholds items sought first later := by
  have met {x : α} (met : s.Met st x) : s.Met later x := met.turn next
  obtain ⟨item, pending, hpending, miss, ⟨old, rfl⟩ | ⟨new, rfl⟩⟩ := cases_of_turn_inl next
  · refine ⟨fun x hx => ?_, met upholds.first, fun x known before => ?_⟩
    · exact upholds.pending x (hpending ▸ List.mem_cons_of_mem _ hx)
    · obtain ⟨unsought, above⟩ := upholds.seen x known before
      exact ⟨unsought, fun y hy => met (above y hy)⟩
  · obtain ⟨own, leads⟩ := upholds.pending item (hpending ▸ List.mem_cons_self)
    refine ⟨fun x hx => ?_, met upholds.first, fun x known before => ?_⟩
    · rcases List.mem_append.mp hx with above | below
      · have above := List.mem_reverse.mp above
        exact ⟨h.next own above, leads.tail above⟩
      · exact upholds.pending x (hpending ▸ List.mem_cons_of_mem _ below)
    · rcases Finset.mem_insert.mp before with same | before
      -- The item itself was not seen before and is no hit.
      · obtain rfl : x = item := h.apart known own same
        refine ⟨fun sought => ?_, fun y hy => ?_⟩
        · exact Bool.false_ne_true (miss.symm.trans (h.isHit_of_sought sought new))
        · exact .inr (List.mem_append_left _ (List.mem_reverse.mpr hy))
      · obtain ⟨unsought, above⟩ := upholds.seen x known before
        exact ⟨unsought, fun y hy => met (above y hy)⟩

/-- Once nothing is pending, all that is led to was seen. -/
theorem mem_seen (h : s.Seeks items sought keys) (upholds : s.Upholds items sought first st)
    (known : items first) (empty : st.pending = []) {x : α} (leads : s.Leads first x) :
    items x ∧ s.key x ∈ st.seen := by
  have seen {x : α} (met : s.Met st x) : s.key x ∈ st.seen :=
    met.resolve_right (by rw [empty]; exact List.not_mem_nil)
  induction leads with
  | refl => exact ⟨known, seen upholds.first⟩
  | tail _ next ih =>
    obtain ⟨known, before⟩ := ih
    exact ⟨h.next known next, seen ((upholds.seen _ known before).2 _ next)⟩

/-- So the search has an answer that is right. -/
theorem answer (h : s.Seeks items sought keys) (upholds : s.Upholds items sought first st)
    (known : items first) {answer : Bool} (ends : s.Ends st answer) :
    answer = true ↔ ∃ x, s.Leads first x ∧ sought x := by
  induction ends with
  | answer last =>
    rcases cases_of_turn_inr last with ⟨empty, rfl⟩ | ⟨item, waits, hit, rfl⟩
    · refine ⟨fun none => absurd none Bool.false_ne_true, fun ⟨x, leads, sought⟩ => ?_⟩
      obtain ⟨known, before⟩ := upholds.mem_seen h known empty leads
      exact absurd sought (upholds.seen x known before).1
    · exact iff_of_true rfl ⟨item, (upholds.pending item waits).2, h.sought_of_isHit hit⟩
  | turn next _ ih => exact ih (upholds.turn h next)

end Upholds

/-- A search ends, and its answer is whether the first item leads to one that is sought. -/
theorem Seeks.ends_iff {items sought : α → Prop} {keys : Finset String}
    (h : s.Seeks items sought keys) {first : α} (known : items first) {answer : Bool} :
    s.Ends (.initial first) answer ↔ (answer = true ↔ ∃ x, s.Leads first x ∧ sought x) := by
  have right {answer : Bool} (ends : s.Ends (.initial first) answer) :=
    (upholds_initial known).answer h known ends
  refine ⟨right, fun spec => ?_⟩
  obtain ⟨found, ends⟩ : ∃ found, s.Ends (.initial first) found :=
    h.exists_ends (List.forall_mem_singleton.mpr known)
  exact Bool.eq_iff_iff.mpr ((right ends).trans spec.symm) ▸ ends

end Search

namespace Universe

variable {u : Universe} {d : Decl} {name : String}

/-! ### The ancestors of a name -/

/-- The search for a name that a name leads to. -/
def targetSearch (u : Universe) (target : String) : Search String where
  key := id
  isHit _ name := name == target
  next := u.parentNames

/-- All names that a declaration extends. -/
def allParentNames (u : Universe) : List String :=
  u.decls.flatMap fun entry => entry.2.parents.filterMap TypeRef.name?

theorem parentNames_subset_allParentNames (u : Universe) (name : String) :
    u.parentNames name ⊆ u.allParentNames := by
  intro parent hparent
  unfold parentNames at hparent
  split at hparent
  · rename_i d hget
    exact List.mem_flatMap.mpr ⟨(name, d), Assoc.mem_of_get? hget, hparent⟩
  · cases hparent

theorem leads_targetSearch_iff {source target other : String} :
    (u.targetSearch target).Leads source other ↔ u.Reaches source other := by
  constructor
  · intro leads
    induction leads with
    | refl => exact .refl source
    | tail _ parent ih => exact .step ih parent
  · intro reaches
    induction reaches with
    | refl => exact .refl
    | step _ parent ih => exact ih.tail parent

theorem seeks_targetSearch (u : Universe) (source target : String) :
    (u.targetSearch target).Seeks (· ∈ source :: u.allParentNames) (· = target)
      (source :: u.allParentNames).toFinset where
  next _ parent := List.mem_cons_of_mem _ (u.parentNames_subset_allParentNames _ parent)
  apart _ _ same := same
  mem_keys known := List.mem_toFinset.mpr known
  sought_of_isHit hit := eq_of_beq hit
  isHit_of_sought sought _ := beq_iff_eq.mpr sought

/-- The search for a name ends, and tells whether a type is assignable to it. -/
theorem ends_targetSearch_iff {source target : String} {answer : Bool} :
    (u.targetSearch target).Ends (.initial source) answer ↔
      answer = u.isAssignable source target := by
  rw [(u.seeks_targetSearch source target).ends_iff List.mem_cons_self]
  simp only [leads_targetSearch_iff, exists_eq_right]
  rw [← isAssignable_iff]
  exact Bool.eq_iff_iff.symm

/-! ### Members above a declaration -/

/-- The search for a declaration with a member that is not static. -/
def memberSearch (u : Universe) : Search Decl where
  key := Decl.name
  isHit seen d := d.name ∉ seen && Decl.hasMember d
  next d := d.parents.filterMap u.declOf?

/-- A declared type that a declaration leads to, by the names that it extends. -/
def DeclaredAbove (u : Universe) (d ancestor : Decl) : Prop :=
  ∃ parent ∈ d.parents.filterMap TypeRef.name?, ∃ name,
    u.Reaches parent name ∧ u.get? name = some ancestor

theorem hasProperties_iff : u.hasProperties d = true ↔
    Decl.hasMember d = true ∨ ∃ ancestor, u.DeclaredAbove d ancestor ∧
      Decl.hasMember ancestor = true := by
  rw [hasProperties, Bool.or_eq_true, List.any_eq_true]
  refine or_congr_right ⟨?_, ?_⟩
  · rintro ⟨name, found, member⟩
    obtain ⟨parent, hparent, reaches⟩ := mem_reachable_iff.mp found
    split at member
    · rename_i ancestor declared
      exact ⟨ancestor, ⟨parent, hparent, name, reaches, declared⟩, member⟩
    · cases member
  · rintro ⟨ancestor, ⟨parent, hparent, name, reaches, declared⟩, member⟩
    refine ⟨name, mem_reachable_iff.mpr ⟨parent, hparent, reaches⟩, ?_⟩
    simpa only [declared] using member

theorem mem_next_memberSearch {other : Decl} : other ∈ u.memberSearch.next d ↔
    ∃ parent ∈ d.parents.filterMap TypeRef.name?, u.get? parent = some other := by
  simp only [memberSearch, List.mem_filterMap, declOf?, Option.bind_eq_some_iff]
  constructor
  · rintro ⟨t, ht, name, named, declared⟩
    exact ⟨name, ⟨t, ht, named⟩, declared⟩
  · rintro ⟨name, ⟨t, ht, named⟩, declared⟩
    exact ⟨t, ht, name, named, declared⟩

theorem leads_memberSearch_of_reaches {parent : String} {ancestor : Decl}
    (hparent : parent ∈ d.parents.filterMap TypeRef.name?) (reaches : u.Reaches parent name)
    (declared : u.get? name = some ancestor) : u.memberSearch.Leads d ancestor := by
  induction reaches generalizing ancestor with
  | refl => exact .single (mem_next_memberSearch.mpr ⟨parent, hparent, declared⟩)
  | @step between name _ above ih =>
    -- A name that leads on is declared.
    unfold parentNames at above
    split at above
    · rename_i child hchild
      exact (ih hchild).tail (mem_next_memberSearch.mpr ⟨name, above, declared⟩)
    · cases above

theorem leads_memberSearch_iff {other : Decl} :
    u.memberSearch.Leads d other ↔ other = d ∨ u.DeclaredAbove d other := by
  constructor
  · intro leads
    induction leads with
    | refl => exact .inl rfl
    | tail _ next ih =>
      obtain ⟨parent, hparent, declared⟩ := mem_next_memberSearch.mp next
      refine .inr ?_
      rcases ih with rfl | ⟨first, hfirst, name, reaches, between⟩
      · exact ⟨parent, hparent, parent, .refl parent, declared⟩
      · exact ⟨first, hfirst, parent, reaches.step (by rwa [parentNames, between]), declared⟩
  · rintro (rfl | ⟨parent, hparent, name, reaches, declared⟩)
    · exact .refl
    · exact leads_memberSearch_of_reaches hparent reaches declared

/-- The universe declares no other type of the name of a declaration. -/
def Owns (u : Universe) (d : Decl) : Prop := ∀ other, u.get? d.name = some other → other = d

theorem Keyed.owns (keyed : u.Keyed) (declared : u.get? name = some d) : u.Owns d := by
  intro other declared'
  rw [keyed name d declared, declared] at declared'
  exact (Option.some.inj declared').symm

theorem Keyed.seeks_memberSearch (keyed : u.Keyed) (owns : u.Owns d) :
    u.memberSearch.Seeks (fun x => x = d ∨ ∃ name, u.get? name = some x)
      (Decl.hasMember · = true) (d.name :: u.decls.map fun entry => entry.2.name).toFinset where
  next _ hy := by
    obtain ⟨parent, -, declared⟩ := mem_next_memberSearch.mp hy
    exact .inr ⟨parent, declared⟩
  apart {x y} hx hy same := by
    have same : x.name = y.name := same
    rcases hx with rfl | ⟨name, hx⟩
    · rcases hy with rfl | ⟨name, hy⟩
      · rfl
      · exact (owns y (by rw [same, keyed name y hy, hy])).symm
    · rcases hy with rfl | ⟨name', hy⟩
      · exact owns x (by rw [← same, keyed name x hx, hx])
      · exact keyed.owns hy x (by rw [← same, keyed name x hx, hx])
  mem_keys hx := by
    rw [List.mem_toFinset]
    rcases hx with rfl | ⟨name, declared⟩
    · exact List.mem_cons_self
    · exact List.mem_cons_of_mem _ (List.mem_map_of_mem (Assoc.mem_of_get? declared))
  sought_of_isHit hit := (Bool.and_eq_true _ _ ▸ hit).2
  isHit_of_sought sought new := Bool.and_eq_true _ _ ▸ ⟨decide_eq_true new, sought⟩

/-- The search for a member ends, and tells whether a declaration has properties. -/
theorem Keyed.ends_memberSearch_iff (keyed : u.Keyed) (owns : u.Owns d) {answer : Bool} :
    u.memberSearch.Ends (.initial d) answer ↔ answer = u.hasProperties d := by
  rw [(keyed.seeks_memberSearch owns).ends_iff (.inl rfl)]
  simp only [leads_memberSearch_iff, or_and_right, exists_or, exists_eq_left]
  rw [← hasProperties_iff]
  exact Bool.eq_iff_iff.symm

/-- Both searches come to an end, each with one answer.  A type is assignable to itself and to the
names that it leads to, and a declaration has properties if it has a member that is not static or
leads to a declared type that has one. -/
structure AncestrySearched (u : Universe) : Prop where
  ends_target (source target : String) (answer : Bool) :
    (u.targetSearch target).Ends (.initial source) answer ↔ answer = u.isAssignable source target
  isAssignable (source target : String) :
    u.isAssignable source target = true ↔ u.Reaches source target
  owns {name : String} {d : Decl} : u.get? name = some d → u.Owns d
  ends_member {d : Decl} : u.Owns d → ∀ answer,
    u.memberSearch.Ends (.initial d) answer ↔ answer = u.hasProperties d
  hasProperties (d : Decl) : u.hasProperties d = true ↔
    Decl.hasMember d = true ∨ ∃ ancestor, u.DeclaredAbove d ancestor ∧
      Decl.hasMember ancestor = true

/-- However a hierarchy loops, and whether or not all that it mentions is declared, the searches
through it find what can be reached. -/
theorem ancestrySearched (n : Normalizer) (ds : List Decl) :
    ((initial n).insertAll ds).AncestrySearched where
  ends_target _ _ _ := ends_targetSearch_iff
  isAssignable _ _ := isAssignable_iff
  owns := (keyed_insertAll n ds).owns
  ends_member owns _ := (keyed_insertAll n ds).ends_memberSearch_iff owns
  hasProperties _ := hasProperties_iff

/-- A record that has a static member only and extends a type that leads back to it. -/
def ringNode : Decl :=
  { name := "com.acme.Node", superType := some (.plain "com.acme.Link"),
    interfaces := [.plain "com.acme.Missing"],
    members := [{ name := "count", type := .plain "int", isStatic := true }] }

/-- A record that extends itself and has no members. -/
def selfMade : Decl := { name := "com.acme.Self", superType := some (.plain "com.acme.Self") }

/-- Two types that extend each other, above them an interface with a member, and a type that
extends itself. -/
def rings : List Decl :=
  [ringNode, selfMade,
    { name := "com.acme.Link",
      interfaces := [.plain "com.acme.Node", .plain "com.acme.Marked", .plain "com.acme.Node"] },
    { name := "com.acme.Marked", kind := .interface,
      members := [{ name := "mark", type := .plain "string" }] }]

/-- The search finds the member above the first type, and none above the other one.  It also comes
upon the name that is not declared. -/
theorem ancestrySearched_rings :
    (((initial .standard).insertAll rings).Owns ringNode ∧
      ((initial .standard).insertAll rings).Owns selfMade) ∧
    ((initial .standard).insertAll rings).memberSearch.Ends (.initial ringNode) true ∧
    ((initial .standard).insertAll rings).memberSearch.Ends (.initial selfMade) false ∧
    (((initial .standard).insertAll rings).targetSearch "com.acme.Missing").Ends
      (.initial "com.acme.Link") true := by
  have searched := ancestrySearched .standard rings
  have node : ((initial .standard).insertAll rings).get? "com.acme.Node" = some ringNode := by rfl
  have made : ((initial .standard).insertAll rings).get? "com.acme.Self" = some selfMade := by rfl
  refine ⟨⟨searched.owns node, searched.owns made⟩, ?_, ?_, ?_⟩
  · exact (searched.ends_member (searched.owns node) true).mpr (by decide +kernel)
  · exact (searched.ends_member (searched.owns made) false).mpr (by decide +kernel)
  · exact (searched.ends_target _ _ true).mpr (by decide +kernel)

end Universe

end Schemata
