import Schemata.Proofs.Naming.Mangling
import Schemata.Universe.Lineage

/-!
# Scoped types

A declaration may mention declared types and, without arguments, its own parameters.  In its
canonical form the parameters are placeholders and all names are declared, as long as no bound
mentions a parameter: bounds are left as they are written.  What is substituted by types of
declared names has declared names again.
-/
namespace Schemata

namespace TypeRef

variable {u : Universe}

/-- Whether every name in the type is declared. -/
def isKnownIn (u : Universe) (t : TypeRef) : Bool :=
  t.occurrences.all fun s => s.name?.all u.contains

/-- Whether every name in the type is declared, or is one of the parameters and has no
arguments. -/
def isScopedIn (u : Universe) (params : List TypeParam) (t : TypeRef) : Bool :=
  t.occurrences.all fun s => s.name?.all fun name =>
    u.contains name || (s.args.isEmpty && params.any (·.name = name))

/-- Whether every name in the bounds of the placeholders in the type is declared. -/
def boundsKnownIn (u : Universe) (t : TypeRef) : Bool :=
  t.occurrences.all fun s =>
    match s with
    | .placeholder _ bounds => bounds.all (isKnownIn u)
    | _ => true

/-- What holds of all occurrences in a type holds of the type itself and inside its parts. -/
theorem all_occurrences_iff {f : TypeRef → Bool} {t : TypeRef} :
    t.occurrences.all f = true ↔ f t = true ∧ ∀ s ∈ t.parts, s.occurrences.all f = true := by
  rw [occurrences_eq_cons, occurrencesAll_eq_flatMap, List.all_cons, Bool.and_eq_true,
    List.all_flatMap, List.all_eq_true]

theorem isKnownIn_iff {t : TypeRef} : t.isKnownIn u = true ↔
    t.name?.all u.contains = true ∧ ∀ s ∈ t.parts, s.isKnownIn u = true :=
  all_occurrences_iff

theorem isKnownIn_of_mem_parts {s t : TypeRef} (h : t.isKnownIn u = true) (hs : s ∈ t.parts) :
    s.isKnownIn u = true :=
  (isKnownIn_iff.mp h).2 s hs

theorem isKnownIn_of_mem_args {s t : TypeRef} (h : t.isKnownIn u = true) (hs : s ∈ t.args) :
    s.isKnownIn u = true :=
  isKnownIn_of_mem_parts h (t.args_subset_parts hs)

theorem contains_of_isKnownIn {name : String} {args : List TypeRef} {directives : Directives}
    (h : (named name args directives).isKnownIn u = true) : u.contains name = true :=
  (isKnownIn_iff.mp h).1

/-- A type of the same name whose parts are the images of the parts. -/
theorem isKnownIn_map (f : TypeRef → TypeRef) {t t' : TypeRef}
    (h : t.name?.all u.contains = true) (hf : ∀ s ∈ t.parts, (f s).isKnownIn u = true)
    (name : t'.name? = t.name?) (parts : t'.parts = t.parts.map f) : t'.isKnownIn u = true := by
  rw [isKnownIn_iff, name, parts]
  refine ⟨h, fun s hs => ?_⟩
  obtain ⟨part, hpart, rfl⟩ := List.mem_map.mp hs
  exact hf part hpart

theorem isKnownIn_substitute {bindings : Bindings}
    (hb : ∀ b ∈ bindings.values, b.isKnownIn u = true) {t : TypeRef} (h : t.isKnownIn u = true) :
    (t.substitute bindings).isKnownIn u = true := by
  induction t using inductionOnParts with
  | step t ih =>
    have inside (s : TypeRef) (hs : s ∈ t.parts) : (s.substitute bindings).isKnownIn u = true :=
      ih s hs (isKnownIn_of_mem_parts h hs)
    cases t with
    | named name args directives =>
      exact isKnownIn_map _ (isKnownIn_iff.mp h).1 inside rfl (substituteAll_eq_map bindings args)
    | array element => exact isKnownIn_map _ (isKnownIn_iff.mp h).1 inside rfl rfl
    | placeholder name bounds =>
      rw [substitute]
      cases hget : bindings.get? name with
      | none => exact h
      | some bound =>
        exact hb bound (List.mem_map.mpr ⟨_, Assoc.mem_of_get? hget, rfl⟩)
    | wildcard bounds =>
      exact isKnownIn_map _ (isKnownIn_iff.mp h).1 inside rfl (substituteAll_eq_map bindings bounds)

theorem normalizedAll_eq_map (n : Normalizer) (ts : List TypeRef) :
    normalizedAll n ts = ts.map (normalized n) := by
  induction ts with
  | nil => rfl
  | cons t rest ih => rw [normalizedAll, ih, List.map_cons]

theorem isKnownIn_normalized (n : Normalizer) {t : TypeRef} (h : t.isKnownIn u = true) :
    (t.normalized n).isKnownIn u = true := by
  induction t using inductionOnParts with
  | step t ih =>
    have inside (s : TypeRef) (hs : s ∈ t.parts) : (s.normalized n).isKnownIn u = true :=
      ih s hs (isKnownIn_of_mem_parts h hs)
    cases t with
    | named name args directives =>
      exact isKnownIn_map _ (isKnownIn_iff.mp h).1 inside rfl (normalizedAll_eq_map n args)
    | array element => exact isKnownIn_map _ (isKnownIn_iff.mp h).1 inside rfl rfl
    | placeholder | wildcard => exact h

/-- Where all names are declared but for bare parameters, placeholders leave declared names only,
as long as the bounds mention no others. -/
theorem isKnownIn_withPlaceholders {params : List TypeParam}
    (hparams : ∀ p ∈ params, p.bounds.all (isKnownIn u) = true) {t : TypeRef}
    (inScope : t.isScopedIn u params = true) (bounded : t.boundsKnownIn u = true) :
    (t.withPlaceholders params).isKnownIn u = true := by
  induction t using inductionOnParts with
  | step t ih =>
    obtain ⟨own, below⟩ := all_occurrences_iff.mp inScope
    obtain ⟨ownBounds, belowBounds⟩ := all_occurrences_iff.mp bounded
    have inside (s : TypeRef) (hs : s ∈ t.parts) :
        (s.withPlaceholders params).isKnownIn u = true :=
      ih s hs (below s hs) (belowBounds s hs)
    cases t with
    | named name args directives =>
      cases args with
      | nil =>
        rw [withPlaceholders]
        split
        · rename_i param found
          exact isKnownIn_iff.mpr
            ⟨rfl, List.all_eq_true.mp (hparams param (List.mem_of_find?_eq_some found))⟩
        · rename_i missing
          have other : params.any (·.name = name) = false := by simpa using missing
          exact isKnownIn_iff.mpr ⟨by simpa [name?, other] using own, fun s hs => by cases hs⟩
      | cons arg rest =>
        have declared : (name? (.named name (arg :: rest) directives)).all u.contains = true := by
          simpa [name?, args] using own
        exact isKnownIn_map _ declared inside rfl (withPlaceholdersAll_eq_map params _)
    | array element => exact isKnownIn_map (t := .array element) _ rfl inside rfl rfl
    | placeholder name bounds => exact isKnownIn_iff.mpr ⟨rfl, List.all_eq_true.mp ownBounds⟩
    | wildcard bounds =>
      exact isKnownIn_map (t := .wildcard bounds) _ rfl inside rfl
        (withPlaceholdersAll_eq_map params bounds)

theorem isKnownIn_canonical (n : Normalizer) {params : List TypeParam}
    (hparams : ∀ p ∈ params, p.bounds.all (isKnownIn u) = true) {t : TypeRef}
    (inScope : t.isScopedIn u params = true) (bounded : t.boundsKnownIn u = true) :
    (t.canonical n params).isKnownIn u = true :=
  isKnownIn_normalized n (isKnownIn_withPlaceholders hparams inScope bounded)

end TypeRef

namespace Decl

/-- Whether the types of the declaration mention declared types and its own parameters only. -/
def isScopedIn (u : Universe) (d : Decl) : Bool :=
  d.parents.all (TypeRef.isScopedIn u d.params)
    && d.members.all (fun m => m.type.isScopedIn u d.params)
    && d.params.all fun p => p.bounds.all (TypeRef.isScopedIn u d.params)

/-- Whether the bounds of its parameters, and of other placeholders, mention declared types
only. -/
def boundsKnownIn (u : Universe) (d : Decl) : Bool :=
  d.parents.all (TypeRef.boundsKnownIn u)
    && d.members.all (fun m => m.type.boundsKnownIn u)
    && d.params.all fun p => p.bounds.all (TypeRef.isKnownIn u)

/-- Whether neither the declaration nor a member has a schema directive of its own. -/
def isUndirected (d : Decl) : Bool :=
  (d.directives.get? .schema).isNone && d.members.all fun m =>
    (m.directives.get? .schema).isNone && (m.directives.get? .arraySchema).isNone

variable {u : Universe} {d : Decl}

theorem parents_canonical (n : Normalizer) (d : Decl) :
    (d.canonical n).parents = d.parents.map (TypeRef.canonical n d.params) := by
  rw [parents, parents, List.map_append]
  cases hs : d.superType <;> simp [canonical, hs]

theorem isKnownIn_of_mem_parents (n : Normalizer) (inScope : d.isScopedIn u = true)
    (bounded : d.boundsKnownIn u = true) {t : TypeRef} (h : t ∈ (d.canonical n).parents) :
    t.isKnownIn u = true := by
  simp only [isScopedIn, boundsKnownIn, Bool.and_eq_true, List.all_eq_true] at inScope bounded
  rw [parents_canonical] at h
  obtain ⟨raw, hraw, rfl⟩ := List.mem_map.mp h
  exact TypeRef.isKnownIn_canonical n (fun p hp => List.all_eq_true.mpr (bounded.2 p hp))
    (inScope.1.1 raw hraw) (bounded.1.1 raw hraw)

theorem isKnownIn_of_mem_members (n : Normalizer) (inScope : d.isScopedIn u = true)
    (bounded : d.boundsKnownIn u = true) {m : Member} (h : m ∈ (d.canonical n).members) :
    m.type.isKnownIn u = true := by
  simp only [isScopedIn, boundsKnownIn, Bool.and_eq_true, List.all_eq_true] at inScope bounded
  obtain ⟨raw, hraw, rfl⟩ := List.mem_map.mp h
  exact TypeRef.isKnownIn_canonical n (fun p hp => List.all_eq_true.mpr (bounded.2 p hp))
    (inScope.1.2 raw hraw) (bounded.1.2 raw hraw)

end Decl

namespace Universe

/-- All types that a declaration is written with mention declared types only, and no directive
says anything of a schema. -/
structure Closed (u : Universe) : Prop where
  value (p : Primitive) : u.contains p.name = true
  object : u.wrapperOf? .object = none
  parents {name : String} {d : Decl} {t : TypeRef} :
    u.get? name = some d → t ∈ d.parents → t.isKnownIn u = true
  members {name : String} {d : Decl} {m : Member} :
    u.get? name = some d → m ∈ d.members → m.type.isKnownIn u = true
  bounds {name : String} {d : Decl} {p : TypeParam} {t : TypeRef} :
    u.get? name = some d → p ∈ d.params → t ∈ p.bounds → t.isKnownIn u = true
  undirected {name : String} {d : Decl} : u.get? name = some d → d.isUndirected = true

/-- What is declared stays declared. -/
theorem contains_insertAll {u : Universe} {name : String} (h : u.contains name = true)
    (ds : List Decl) : (u.insertAll ds).contains name = true := by
  induction ds generalizing u with
  | nil => exact h
  | cons d ds ih =>
    refine ih (u := u.insert d) ?_
    have inserted := get?_insert u d name
    unfold get? at inserted
    rw [contains, Assoc.contains, inserted]
    split
    · rfl
    · exact h

/-- The declarations of a universe decide whether it is closed. -/
theorem closed_insertAll (n : Normalizer) {ds : List Decl} {u : Universe}
    (hu : u = (initial n).insertAll ds) (inScope : ∀ d ∈ ds, d.isScopedIn u = true)
    (bounded : ∀ d ∈ ds, d.boundsKnownIn u = true)
    (undirected : u.decls.all (fun entry => entry.2.isUndirected) = true)
    (object : u.wrapperOf? .object = none) : u.Closed := by
  have declared {name : String} {d : Decl} (h : u.get? name = some d) :
      Decl.isBare d = true ∨ ∃ inserted ∈ ds, ∃ n, d = inserted.canonical n := by
    subst hu
    exact (of_get?_insertAll h).imp_left isBare_of_get?_initial
  refine ⟨fun p => ?_, object, fun {name d t} h ht => ?_, fun {name d m} h hm => ?_,
    fun {name d p t} h hp ht => ?_, fun {name d} h => ?_⟩
  · subst hu
    exact contains_insertAll (by cases p <;> rfl) ds
  · rcases declared h with bare | ⟨inserted, hmem, n, rfl⟩
    · simp only [Decl.isBare, Bool.and_eq_true, List.isEmpty_iff] at bare
      rw [bare.1.1.1.1.2] at ht
      cases ht
    · exact Decl.isKnownIn_of_mem_parents n (inScope _ hmem) (bounded _ hmem) ht
  · rcases declared h with bare | ⟨inserted, hmem, n, rfl⟩
    · simp only [Decl.isBare, Bool.and_eq_true, List.isEmpty_iff] at bare
      rw [bare.1.1.1.1.1] at hm
      cases hm
    · exact Decl.isKnownIn_of_mem_members n (inScope _ hmem) (bounded _ hmem) hm
  · rcases declared h with bare | ⟨inserted, hmem, n, rfl⟩
    · simp only [Decl.isBare, Bool.and_eq_true, List.all_eq_true, List.isEmpty_iff] at bare
      rw [bare.1.1.1.2 p hp] at ht
      cases ht
    · have known := bounded _ hmem
      simp only [Decl.boundsKnownIn, Bool.and_eq_true, List.all_eq_true] at known
      exact known.2 p hp t ht
  · exact List.all_eq_true.mp undirected (name, d) (Assoc.mem_of_get? h)

namespace Closed

variable {u : Universe} (hu : u.Closed)

include hu

theorem isKnownIn_value (p : Primitive) : (TypeRef.plain p.name).isKnownIn u = true :=
  TypeRef.isKnownIn_iff.mpr ⟨hu.value p, fun s hs => by cases hs⟩

theorem isKnownIn_object : TypeRef.object.isKnownIn u = true := hu.isKnownIn_value .object

theorem isKnownIn_fallback {name : String} {d : Decl} (h : u.get? name = some d) {p : TypeParam}
    (hp : p ∈ d.params) : p.fallback.isKnownIn u = true := by
  unfold TypeParam.fallback
  cases hbounds : p.bounds with
  | nil => exact hu.isKnownIn_object
  | cons bound rest =>
    have first : bound ∈ p.bounds := hbounds ▸ List.mem_cons_self
    exact hu.bounds h hp first

/-- What the parameters stand for is among the arguments, or is a bound. -/
theorem isKnownIn_bindings {t : TypeRef} (h : t.isKnownIn u = true) :
    ∀ b ∈ (u.bindings t).values, b.isKnownIn u = true := by
  intro b hb
  unfold bindings at hb
  split at hb
  · rename_i d declared
    obtain ⟨name, -, hget⟩ := Option.bind_eq_some_iff.mp declared
    obtain ⟨pair, hpair, rfl⟩ := List.mem_map.mp hb
    rcases Decl.mem_bind (Assoc.mem_of_mem_ofList hpair) with given | ⟨p, hp, fallback⟩
    · exact TypeRef.isKnownIn_of_mem_args h given
    · rw [fallback]
      exact hu.isKnownIn_fallback hget hp
  · cases hb

theorem isKnownIn_composedParents {name : String} {d : Decl} (h : u.get? name = some d)
    {bindings : Bindings} (hb : ∀ b ∈ bindings.values, b.isKnownIn u = true) :
    ∀ t ∈ (u.composedParents d).map (TypeRef.substitute bindings), t.isKnownIn u = true := by
  intro t ht
  obtain ⟨raw, hraw, rfl⟩ := List.mem_map.mp ht
  exact TypeRef.isKnownIn_substitute hb (hu.parents h (mem_composedParents hraw).1)

theorem isKnownIn_lineageFrom {steps : Nat} {seen : List String} {pending : List TypeRef}
    (h : ∀ t ∈ pending, t.isKnownIn u = true) :
    ∀ t ∈ u.lineageFrom steps seen pending, t.isKnownIn u = true := by
  refine fun t ht => (holds_lineageFrom (fun known declared => ?_) h t ht).1
  obtain ⟨name, -, hget⟩ := Option.bind_eq_some_iff.mp declared
  exact hu.isKnownIn_composedParents hget (hu.isKnownIn_bindings known)

theorem isKnownIn_lineage {name : String} {d : Decl} (h : u.get? name = some d)
    {bindings : Bindings} (hb : ∀ b ∈ bindings.values, b.isKnownIn u = true) :
    ∀ t ∈ u.lineage d bindings, t.isKnownIn u = true :=
  hu.isKnownIn_lineageFrom (hu.isKnownIn_composedParents h hb)

end Closed

end Universe

end Schemata
