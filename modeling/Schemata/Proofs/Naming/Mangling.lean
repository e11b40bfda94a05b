import Schemata.Naming.Table
import Schemata.Proofs.Assoc
import Schemata.Proofs.TypeRef.Occurrences
import Schemata.Proofs.Universe.Concrete

/-!
# Every type has a name

A name is written with the parts of a type, the bounds that stand for missing arguments and the
types that replace arguments.  There are finitely many of these and none is entered twice, so that
the depth of a name is never used up.
-/
namespace Schemata

theorem Decl.mem_bind {params : List TypeParam} {args : List TypeRef} {pair : String × TypeRef}
    (h : pair ∈ bind params args) : pair.2 ∈ args ∨ ∃ p ∈ params, pair.2 = p.fallback := by
  induction params generalizing args with
  | nil => cases h
  | cons p params ih =>
    cases args with
    | nil =>
      rcases List.mem_cons.mp h with rfl | later
      · exact .inr ⟨p, List.mem_cons_self, rfl⟩
      · rcases ih later with none | ⟨q, hq, same⟩
        · cases none
        · exact .inr ⟨q, List.mem_cons_of_mem _ hq, same⟩
    | cons arg args =>
      rcases List.mem_cons.mp h with rfl | later
      · exact .inl List.mem_cons_self
      · rcases ih later with given | ⟨q, hq, same⟩
        · exact .inl (List.mem_cons_of_mem _ given)
        · exact .inr ⟨q, List.mem_cons_of_mem _ hq, same⟩

namespace Universe.Concrete

variable {u : Universe}

/-- What the parameters of a type stand for is among its arguments, or is the type of every
value. -/
theorem mem_values_bindings (hu : u.Concrete) {t : TypeRef} {d : Decl} {value : TypeRef}
    (declared : u.declOf? t = some d) (h : value ∈ (d.bindingsFor t.args).values) :
    value ∈ t.args ∨ value = .object := by
  obtain ⟨name, -, hget⟩ := Option.bind_eq_some_iff.mp declared
  obtain ⟨pair, hpair, rfl⟩ := List.mem_map.mp h
  rcases Decl.mem_bind (Assoc.mem_of_mem_ofList hpair) with given | ⟨p, hp, fallback⟩
  · exact .inl given
  · refine .inr ?_
    rw [fallback, TypeParam.fallback, hu.unbounded hget p hp]
    rfl

end Universe.Concrete

theorem TypeRef.args_subset_parts (t : TypeRef) : t.args ⊆ t.parts := by
  cases t with
  | named => exact List.Subset.refl _
  | _ => exact List.nil_subset _

theorem Universe.mem_parts_of_kindOf {u : Universe} {t item : TypeRef}
    (h : u.kindOf t = .array item) : item ∈ t.parts := by
  cases t with
  | named name args directives =>
    rw [kindOf] at h
    cases hget : u.get? name with
    | none => simp [hget] at h
    | some d =>
      simp only [hget, kindOfDecl] at h
      cases hkind : d.kind <;> simp [hkind] at h
  | array element =>
    cases h
    exact List.mem_singleton_self _
  | placeholder | wildcard => cases h

namespace Mangle

variable {c : Config} {u : Universe} {written : List TypeRef}

/-- The types that names can be written with: the parts of a type, the bounds that stand for
missing arguments, and what replaces an argument. -/
structure Covers (c : Config) (u : Universe) (written : List TypeRef) : Prop where
  part {s t : TypeRef} : t ∈ written → s ∈ t.parts → s ∈ written
  fallback {name : String} {d : Decl} {p : TypeParam} :
    u.get? name = some d → p ∈ d.params → p.fallback ∈ written
  replacement {s : CustomSchema} {t : TypeRef} :
    s ∈ c.customSchemas → TypeRef.parse? s.replacement = some t → t ∈ written

namespace Covers

variable (h : Covers c u written)

include h

theorem effectiveArgs {t arg : TypeRef} (ht : t ∈ written) (harg : arg ∈ effectiveArgs u t) :
    arg ∈ written := by
  have given {arg : TypeRef} (harg : arg ∈ t.args) : arg ∈ written :=
    h.part ht (t.args_subset_parts harg)
  unfold Mangle.effectiveArgs at harg
  split at harg
  · rename_i d declared
    obtain ⟨name, -, hget⟩ := Option.bind_eq_some_iff.mp declared
    split at harg
    · exact given harg
    · obtain ⟨pair, hpair, rfl⟩ := List.mem_map.mp harg
      rcases Decl.mem_bind (Assoc.mem_of_mem_ofList hpair) with own | ⟨p, hp, fallback⟩
      · exact given own
      · exact fallback ▸ h.fallback hget hp
  · exact given harg

theorem replaced {arg : TypeRef} (harg : arg ∈ written) : replaced c arg ∈ written := by
  unfold Mangle.replaced
  split
  · rename_i text found
    obtain ⟨s, hs, rfl⟩ := Option.map_eq_some_iff.mp found
    cases parsed : TypeRef.parse? s.replacement with
    | none => exact harg
    | some t => exact h.replacement (List.mem_of_find?_eq_some hs) parsed
  · exact harg

end Covers

/-- How many types have not been written yet. -/
def unwritten (written : List TypeRef) (seen : List String) : Nat :=
  Assoc.unseen (written.map fun t => (t.display, t)) seen

theorem unwritten_antitone {seen later : List String} (sub : seen ⊆ later) :
    unwritten written later ≤ unwritten written seen :=
  Assoc.unseen_antitone sub

theorem unwritten_lt {seen : List String} {t : TypeRef} (ht : t ∈ written)
    (new : t.display ∉ seen) : unwritten written (t.display :: seen) < unwritten written seen :=
  Assoc.unseen_lt (List.mem_map.mpr ⟨t, ht, rfl⟩) (List.subset_cons_self _ _) new
    List.mem_cons_self

/-- A writer comes to an end in some state, and forgets nothing that was written before. -/
def Ends (seen : List String) (result : Option (String × List String)) : Prop :=
  ∃ text later, result = some (text, later) ∧ seen ⊆ later

/-- A writer ends on each of the types, once these have been written. -/
def EndsAfter (written : List TypeRef) (before : List String) (inner : Writer) : Prop :=
  ∀ t ∈ written, ∀ seen, before ⊆ seen → t.display ∉ seen → Ends seen (inner t seen)

theorem ends_mangleArg (covers : Covers c u written) {before : List String} {inner : Writer}
    (ends : EndsAfter written before inner) {arg : TypeRef} (harg : arg ∈ written)
    {seen : List String} (sub : before ⊆ seen) : Ends seen (mangleArg c u inner arg seen) := by
  unfold mangleArg
  dsimp only
  split
  · exact ⟨_, seen, rfl, List.Subset.refl _⟩
  · rename_i new
    obtain ⟨text, later, found, more⟩ :=
      ends _ (covers.replaced harg) seen sub (by simpa using new)
    rw [found]
    exact ⟨_, later, rfl, more⟩

theorem ends_mangleArgs (covers : Covers c u written) {before : List String} {inner : Writer}
    (ends : EndsAfter written before inner) {args : List TypeRef} (hargs : args ⊆ written)
    {seen : List String} (sub : before ⊆ seen) : Ends seen (mangleArgs c u inner args seen) := by
  induction args generalizing seen with
  | nil => exact ⟨"", seen, rfl, List.Subset.refl _⟩
  | cons arg rest ih =>
    obtain ⟨text, later, found, more⟩ := ends_mangleArg covers ends (hargs List.mem_cons_self) sub
    cases rest with
    | nil => exact ⟨text, later, found, more⟩
    | cons next rest =>
      obtain ⟨others, last, found', more'⟩ :=
        ih (List.Subset.trans (List.subset_cons_self _ _) hargs) (List.Subset.trans sub more)
      refine ⟨text ++ c.naming.inner ++ others, last, ?_, List.Subset.trans more more'⟩
      simp only [mangleArgs, found, found', Option.bind_eq_bind, Option.bind_some, Option.pure_def]

/-- A type is entered only once, so that no more depth is needed than there are types. -/
theorem ends_mangle (covers : Covers c u written) {depth : Nat} {t : TypeRef} (ht : t ∈ written)
    {seen : List String} (new : t.display ∉ seen) (enough : unwritten written seen ≤ depth) :
    Ends seen (mangle c u depth t seen) := by
  induction depth generalizing t seen with
  | zero =>
    have less := unwritten_lt ht new
    omega
  | succ depth ih =>
    have less := unwritten_lt ht new
    have kept : seen ⊆ t.display :: seen := List.subset_cons_self _ _
    have inner : EndsAfter written (t.display :: seen) (mangle c u depth) := by
      intro s hs later sub new'
      have fewer : unwritten written later ≤ unwritten written (t.display :: seen) :=
        unwritten_antitone sub
      exact ih hs new' (by omega)
    rw [mangle]
    split
    · exact ⟨"", _, rfl, kept⟩
    · obtain ⟨text, later, found, more⟩ := ends_mangleArgs covers inner
        (fun arg harg => covers.effectiveArgs ht harg) (List.Subset.refl (t.display :: seen))
      rw [found]
      exact ⟨_, later, rfl, List.Subset.trans kept more⟩

/-! ### The depth of a name -/

/-- What the names of a type are written with. -/
def rootsOf (c : Config) (u : Universe) (t : TypeRef) : List TypeRef :=
  t :: .object :: u.decls.flatMap (fun entry => entry.2.params.flatMap TypeParam.bounds)
    ++ c.customSchemas.filterMap fun s => TypeRef.parse? s.replacement

/-- Names are written with what occurs in some types, if what stands for missing arguments and what
replaces an argument is among these. -/
theorem covers_of_roots {c : Config} {u : Universe} {roots : List TypeRef}
    (fallback : ∀ {name : String} {d : Decl} {p : TypeParam},
      u.get? name = some d → p ∈ d.params → p.fallback ∈ roots)
    (replacement : ∀ {s : CustomSchema} {t : TypeRef},
      s ∈ c.customSchemas → TypeRef.parse? s.replacement = some t → t ∈ roots) :
    Covers c u (roots.flatMap TypeRef.occurrences) where
  part ht hs := by
    obtain ⟨root, hroot, inside⟩ := List.mem_flatMap.mp ht
    exact List.mem_flatMap.mpr ⟨root, hroot, TypeRef.parts_subset_occurrences inside hs⟩
  fallback hget hp := List.mem_flatMap.mpr ⟨_, fallback hget hp, TypeRef.mem_occurrences_self _⟩
  replacement hs parsed :=
    List.mem_flatMap.mpr ⟨_, replacement hs parsed, TypeRef.mem_occurrences_self _⟩

theorem covers_rootsOf (c : Config) (u : Universe) (t : TypeRef) :
    Covers c u ((rootsOf c u t).flatMap TypeRef.occurrences) := by
  refine covers_of_roots (fun {name d p} hget hp => ?fallback) fun {s t'} hs parsed => ?replacement
  case fallback =>
    refine List.mem_append_left _ (List.mem_cons_of_mem _ ?_)
    rw [TypeParam.fallback]
    cases bounds : p.bounds with
    | nil => exact List.mem_cons_self
    | cons bound rest =>
      have own : bound ∈ p.bounds := bounds ▸ List.mem_cons_self
      refine List.mem_cons_of_mem _ (List.mem_flatMap.mpr ⟨_, Assoc.mem_of_get? hget, ?_⟩)
      exact List.mem_flatMap.mpr ⟨p, hp, own⟩
  case replacement =>
    exact List.mem_append_right _ (List.mem_filterMap.mpr ⟨s, hs, parsed⟩)

/-- The bound on the depth counts all of them. -/
theorem unwritten_rootsOf_le (c : Config) (u : Universe) (t : TypeRef) :
    unwritten ((rootsOf c u t).flatMap TypeRef.occurrences) [] ≤ depthBound c u t := by
  have bounds : sumOf weight (u.decls.flatMap fun entry => entry.2.params.flatMap TypeParam.bounds)
      = sumOf (fun entry => sumOf (fun p => weights p.bounds) entry.2.params) u.decls := by
    simp only [sumOf_flatMap, TypeRef.weights_eq_sumOf]
  have replacements : sumOf weight (c.customSchemas.filterMap fun s => TypeRef.parse? s.replacement)
      = sumOf (fun s => ((TypeRef.parse? s.replacement).map weight).getD 0) c.customSchemas := by
    induction c.customSchemas with
    | nil => rfl
    | cons s rest ih =>
      cases parsed : TypeRef.parse? s.replacement with
      | none => simp [parsed, ih]
      | some t => simp [parsed, ih]
  have object : weight .object = 1 := rfl
  refine Nat.le_trans (Assoc.unseen_le_length _ _) ?_
  rw [List.length_map, length_flatMap_eq_sumOf, funext TypeRef.length_occurrences, rootsOf,
    sumOf_append, sumOf_cons, sumOf_cons, bounds, replacements, object, depthBound]
  omega

theorem isSome_mangle (c : Config) (u : Universe) (t : TypeRef) :
    (mangle c u (depthBound c u t) t []).isSome := by
  have ht : t ∈ (rootsOf c u t).flatMap TypeRef.occurrences :=
    List.mem_flatMap.mpr ⟨t, List.mem_cons_self, t.mem_occurrences_self⟩
  obtain ⟨text, later, found, -⟩ :=
    ends_mangle (covers_rootsOf c u t) ht List.not_mem_nil (unwritten_rootsOf_le c u t)
  rw [found]
  rfl

end Mangle

/-- A name is computed for every request. -/
theorem NameRequest.exists_candidate (r : NameRequest) (c : Config) (u : Universe) :
    ∃ key, r.candidate c u = some key := by
  have full : (Mangle.fullName c u r.type (r.viewEnding c)).isSome := by
    obtain ⟨text, htext⟩ := Option.isSome_iff_exists.mp (Mangle.isSome_mangle c u r.type)
    unfold Mangle.fullName
    by_cases enum : u.isEnum r.type = true
    · simp [enum]
    · simp [enum, htext]
  obtain ⟨found, hfound⟩ := Option.isSome_iff_exists.mp full
  unfold candidate
  simp only [hfound, Option.bind_eq_bind, Option.bind_some]
  split
  · exact ⟨_, rfl⟩
  · exact ⟨_, rfl⟩
  · exact ⟨_, rfl⟩

end Schemata
