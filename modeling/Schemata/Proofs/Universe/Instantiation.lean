import Schemata.Proofs.Universe.Insertion
import Schemata.Proofs.Universe.Preorder

/-!
# Instantiation

What stands for the parameters of a declaration is put into the types that it is written with in
two steps: mentions of the parameters become placeholders when the declaration is inserted, and
the placeholders are replaced for each occurrence.  Together they fill in each mention once and at
the same time, and nothing of what is filled in is taken for a mention.  So it makes no difference
whether the arguments of an occurrence are instantiated in turn before they are filled in or after
it, and what is above an instantiated type is what is above the type, instantiated in the same way.
-/
namespace Schemata

namespace TypeRef

/-- Whether nothing in the type is a placeholder or has directives. -/
def isUnadorned (t : TypeRef) : Bool :=
  t.occurrences.all fun s => !s.isPlaceholder && s.directives.isEmpty

mutual

/-- Puts something else in the place of names without arguments.  What is put in is not looked at
again. -/
def fillIn (meaning : String → Option TypeRef) : TypeRef → TypeRef
  | .named name [] directives => (meaning name).getD (.named name [] directives)
  | .named name args directives => .named name (fillInAll meaning args) directives
  | .array element => .array (fillIn meaning element)
  | .placeholder name bounds => .placeholder name bounds
  | .wildcard bounds => .wildcard (fillInAll meaning bounds)

def fillInAll (meaning : String → Option TypeRef) : List TypeRef → List TypeRef
  | [] => []
  | t :: rest => fillIn meaning t :: fillInAll meaning rest

end

theorem fillInAll_eq_map (meaning : String → Option TypeRef) (ts : List TypeRef) :
    fillInAll meaning ts = ts.map (fillIn meaning) := by
  induction ts with
  | nil => rfl
  | cons t rest ih => rw [fillInAll, ih, List.map_cons]

/-- An unadorned type is made of unadorned types, and neither is a placeholder nor has
directives. -/
@[elab_as_elim]
theorem unadornedInduction {motive : TypeRef → Prop} (t : TypeRef) (h : t.isUnadorned = true)
    (bare : ∀ name, motive (.plain name))
    (generic : ∀ name arg rest, (∀ s ∈ arg :: rest, motive s) →
      motive (.generic name (arg :: rest)))
    (array : ∀ element, motive element → motive (.array element))
    (wildcard : ∀ bounds, (∀ s ∈ bounds, motive s) → motive (.wildcard bounds)) : motive t := by
  induction t using inductionOnParts with
  | step t ih =>
    obtain ⟨own, inside⟩ := all_occurrences_iff.mp h
    simp only [Bool.and_eq_true, List.isEmpty_iff] at own
    have parts (s : TypeRef) (hs : s ∈ t.parts) : motive s := ih s hs (inside s hs)
    cases t with
    | named name args directives =>
      obtain rfl : directives = [] := own.2
      cases args with
      | nil => exact bare name
      | cons arg rest => exact generic name arg rest parts
    | array element => exact array element (parts element (List.mem_singleton_self _))
    | placeholder => cases own.1
    | wildcard bounds => exact wildcard bounds parts

variable {t : TypeRef}

namespace Pervades

variable {f g : TypeRef → TypeRef}

protected theorem id : Pervades fun t => t where
  named name arg rest directives := by rw [List.map_id']
  array _ := rfl
  wildcard bounds := by rw [List.map_id']

theorem comp (hg : Pervades g) (hf : Pervades f) : Pervades fun t => g (f t) where
  named name arg rest directives := by
    rw [hf.named, List.map_cons, hg.named, ← List.map_cons, List.map_map]
    rfl
  array element := by rw [hf.array, hg.array]
  wildcard bounds := by
    rw [hf.wildcard, hg.wildcard, List.map_map]
    rfl

/-- Two rewritings of unadorned types come to the same if they do so for names without
arguments. -/
theorem eq_of_bare (hf : Pervades f) (hg : Pervades g)
    (bare : ∀ name, f (.plain name) = g (.plain name)) (h : t.isUnadorned = true) : f t = g t := by
  refine unadornedInduction t h bare ?generic ?array ?wildcard
  case generic =>
    intro name arg rest ih
    rw [generic, hf.named, hg.named, List.map_congr_left ih]
  case array =>
    intro element ih
    rw [hf.array, hg.array, ih]
  case wildcard =>
    intro bounds ih
    rw [hf.wildcard, hg.wildcard, List.map_congr_left ih]

theorem substitute (bindings : Bindings) : Pervades (substitute bindings) where
  named name arg rest directives := by rw [TypeRef.substitute, substituteAll_eq_map]
  array _ := rfl
  wildcard bounds := by rw [TypeRef.substitute, substituteAll_eq_map]

theorem fillIn (meaning : String → Option TypeRef) : Pervades (fillIn meaning) where
  named name arg rest directives := by
    rw [TypeRef.fillIn, fillInAll_eq_map]
    exact List.cons_ne_nil _ _
  array _ := rfl
  wildcard bounds := by rw [TypeRef.fillIn, fillInAll_eq_map]

end Pervades

/-! ### The two steps -/

/-- There are no directives that would be normalized. -/
theorem canonical_of_isUnadorned (n : Normalizer) (params : List TypeParam)
    (h : t.isUnadorned = true) : t.canonical n params = t.withPlaceholders params := by
  refine unadornedInduction t h ?bare ?generic ?array ?wildcard
  case bare =>
    intro name
    rw [canonical, plain, withPlaceholders]
    split <;> rfl
  case generic =>
    intro name arg rest ih
    rw [canonical, generic, (Pervades.withPlaceholders params).named, normalized,
      normalizedAll_eq_map, List.map_map]
    exact congrArg (generic name) (List.map_congr_left ih)
  case array =>
    intro element ih
    exact congrArg array ih
  case wildcard =>
    -- Nothing is normalized below a bound.
    exact fun _ _ => rfl

/-- Replacing the placeholders of the mentioned parameters fills in the mentions. -/
theorem substitute_withPlaceholders {params : List TypeParam} {bindings : Bindings}
    (bound : ∀ name, (bindings.get? name).isSome = (params.find? (·.name = name)).isSome)
    (h : t.isUnadorned = true) :
    (t.withPlaceholders params).substitute bindings = t.fillIn bindings.get? := by
  refine ((Pervades.substitute bindings).comp (.withPlaceholders params)).eq_of_bare (.fillIn _)
    (fun name => ?_) h
  have bound := bound name
  rw [plain, withPlaceholders, fillIn]
  split
  · rename_i param found
    rw [found, Option.isSome_some, Option.isSome_iff_exists] at bound
    obtain ⟨value, hvalue⟩ := bound
    rw [substitute, hvalue, Option.getD_some, Option.getD_some]
  · rename_i missing
    rw [missing, Option.isSome_none, Option.isSome_eq_false_iff, Option.isNone_iff_eq_none] at bound
    rw [bound, Option.getD_none, substitute, substituteAll]

/-- A type without placeholders is not changed by what placeholders are replaced with. -/
theorem substitute_of_isUnadorned (bindings : Bindings) (h : t.isUnadorned = true) :
    t.substitute bindings = t :=
  (Pervades.substitute bindings).eq_of_bare .id (fun _ => rfl) h

/-- What is replaced after filling in is replaced in what was filled in, and nowhere else. -/
theorem substitute_fillIn (meaning : String → Option TypeRef) (bindings : Bindings)
    (h : t.isUnadorned = true) : (t.fillIn meaning).substitute bindings =
      t.fillIn fun name => (meaning name).map (substitute bindings) := by
  refine ((Pervades.substitute bindings).comp (.fillIn meaning)).eq_of_bare (.fillIn _)
    (fun name => ?_) h
  rw [plain, fillIn, fillIn]
  cases meaning name <;> rfl

/-! ### Positions -/

theorem isBelow_isPlaceholder_of_isUnadorned (h : t.isUnadorned = true) (path : List Nat) :
    t.isBelow isPlaceholder path = false := by
  induction path generalizing t with
  | nil => rfl
  | cons i path ih =>
    obtain ⟨own, inside⟩ := all_occurrences_iff.mp h
    rw [isBelow, Bool.or_eq_false_iff]
    rw [Bool.and_eq_true, Bool.not_eq_true'] at own
    refine ⟨own.1, ?_⟩
    cases hpart : t.parts[i]? with
    | none => rfl
    | some part => exact ih (inside part (List.mem_of_getElem? hpart))

/-- What stands at the position of a name without arguments is what is put in its place. -/
theorem partAt?_fillIn {meaning : String → Option TypeRef} (h : t.isUnadorned = true)
    {path : List Nat} {name : String} (there : t.partAt? path = some (.plain name)) :
    (t.fillIn meaning).partAt? path = some ((meaning name).getD (.plain name)) := by
  have descends := (Pervades.fillIn meaning).descends fun _ _ => rfl
  rw [descends.partAt? there, isBelow_isPlaceholder_of_isUnadorned h path]
  rfl

end TypeRef

namespace Decl

/-- What a name stands for in an occurrence with these arguments, if it is a parameter: the
argument in the place of the parameter, or what the parameter falls back to. -/
def standsFor? (d : Decl) (args : List TypeRef) (name : String) : Option TypeRef :=
  (d.params.zipIdx.find? (·.1.name = name)).map fun (p, i) => args[i]?.getD p.fallback

/-- Whether the parameters have different names, and the types and bounds that the declaration is
written with have neither placeholders nor directives. -/
def isTidy (d : Decl) : Bool :=
  decide (d.params.map TypeParam.name).Nodup && d.uses.all TypeRef.isUnadorned
    && d.params.all fun p => p.bounds.all TypeRef.isUnadorned

theorem isTidy_iff {d : Decl} : d.isTidy = true ↔
    (d.params.map TypeParam.name).Nodup ∧ (∀ t ∈ d.uses, t.isUnadorned = true) ∧
      ∀ p ∈ d.params, ∀ t ∈ p.bounds, t.isUnadorned = true := by
  simp only [isTidy, Bool.and_eq_true, decide_eq_true_eq, List.all_eq_true, and_assoc]

theorem isUnadorned_fallback {p : TypeParam} (h : ∀ t ∈ p.bounds, t.isUnadorned = true) :
    p.fallback.isUnadorned = true := by
  rw [TypeParam.fallback]
  cases hbounds : p.bounds with
  | nil => rfl
  | cons bound rest => exact h bound (hbounds ▸ List.mem_cons_self)

/-! ### Bindings -/

theorem bind_cons (p : TypeParam) (params : List TypeParam) (args : List TypeRef) :
    bind (p :: params) args = (p.name, args.head?.getD p.fallback) :: bind params args.tail := by
  cases args <;> rfl

theorem keys_bind (params : List TypeParam) (args : List TypeRef) :
    Assoc.keys (bind params args) = params.map TypeParam.name := by
  induction params generalizing args with
  | nil => rfl
  | cons p params ih =>
    rw [bind_cons, Assoc.keys, List.map_cons, List.map_cons, ← ih args.tail, Assoc.keys]

/-- Parameters are bound to the arguments in their places, counted from some place on. -/
theorem get?_bind (params : List TypeParam) (args : List TypeRef) (name : String) (k : Nat) :
    Assoc.get? (bind params (args.drop k)) name =
      ((params.zipIdx k).find? (·.1.name = name)).map fun (p, i) => args[i]?.getD p.fallback := by
  induction params generalizing k with
  | nil => rfl
  | cons p params ih =>
    rw [bind_cons, Assoc.get?_cons, List.head?_drop, List.tail_drop, ih, List.zipIdx_cons,
      List.find?_cons]
    by_cases same : p.name = name <;> simp [same]

variable {d : Decl}

theorem get?_bindingsFor (distinct : (d.params.map TypeParam.name).Nodup) (args : List TypeRef) :
    (d.bindingsFor args).get? = d.standsFor? args := by
  funext name
  rw [bindingsFor, Assoc.ofList_of_nodup (by rwa [keys_bind])]
  exact get?_bind d.params args name 0

theorem isSome_standsFor? (args : List TypeRef) (name : String) :
    (d.standsFor? args name).isSome = (d.params.find? (·.name = name)).isSome := by
  have numbered : d.params.find? (·.name = name) =
      (d.params.zipIdx.find? (·.1.name = name)).map Prod.fst := by
    conv => lhs; rw [← List.zipIdx_map_fst 0 d.params, List.find?_map]
    rfl
  rw [standsFor?, numbered, Option.isSome_map, Option.isSome_map]

/-- A parameter stands for the argument in its place. -/
theorem standsFor?_of_getElem? (distinct : (d.params.map TypeParam.name).Nodup) {i : Nat}
    {p : TypeParam} (h : d.params[i]? = some p) (args : List TypeRef) :
    d.standsFor? args p.name = some (args[i]?.getD p.fallback) := by
  have known : (p, i) ∈ d.params.zipIdx := List.mk_mem_zipIdx_iff_getElem?.mpr h
  have found : (d.params.zipIdx.find? (·.1.name = p.name)).isSome = true :=
    List.find?_isSome.mpr ⟨_, known, decide_eq_true rfl⟩
  obtain ⟨⟨q, j⟩, found⟩ := Option.isSome_iff_exists.mp found
  have other : d.params[j]? = some q :=
    List.mk_mem_zipIdx_iff_getElem?.mp (List.mem_of_find?_eq_some found)
  have same : q.name = p.name := by simpa using List.find?_some found
  have names : (d.params.map TypeParam.name)[i]? = (d.params.map TypeParam.name)[j]? := by
    rw [List.getElem?_map, List.getElem?_map, h, other, Option.map_some, Option.map_some, same]
  have place : i < (d.params.map TypeParam.name).length := by
    rw [List.length_map]
    exact (List.getElem?_eq_some_iff.mp h).1
  obtain rfl : i = j := (List.getElem?_inj place distinct).mp names
  obtain rfl : q = p := Option.some.inj (other.symm.trans h)
  rw [standsFor?, found, Option.map_some]

/-- What a name stands for is instantiated with the arguments. -/
theorem standsFor?_map (bounds : ∀ p ∈ d.params, ∀ t ∈ p.bounds, t.isUnadorned = true)
    (args : List TypeRef) (bindings : Bindings) (name : String) :
    d.standsFor? (args.map (TypeRef.substitute bindings)) name =
      (d.standsFor? args name).map (TypeRef.substitute bindings) := by
  rw [standsFor?, standsFor?, Option.map_map]
  refine Option.map_congr fun (p, i) found => ?_
  have known : p ∈ d.params :=
    List.mem_of_getElem? (List.mk_mem_zipIdx_iff_getElem?.mp (List.mem_of_find?_eq_some found))
  have fallback : p.fallback.substitute bindings = p.fallback :=
    TypeRef.substitute_of_isUnadorned bindings (isUnadorned_fallback (bounds p known))
  rw [Function.comp_apply]
  dsimp only
  rw [List.getElem?_map]
  cases args[i]? with
  | none => exact fallback.symm
  | some arg => rfl

/-! ### Types of a declaration -/

variable {t : TypeRef}

/-- The two steps fill in what the names stand for. -/
theorem substitute_canonical (n : Normalizer) (tidy : d.isTidy = true) (ht : t ∈ d.uses)
    (args : List TypeRef) : (t.canonical n d.params).substitute (d.bindingsFor args) =
      t.fillIn (d.standsFor? args) := by
  obtain ⟨distinct, uses, -⟩ := isTidy_iff.mp tidy
  have same := get?_bindingsFor distinct args
  rw [TypeRef.canonical_of_isUnadorned n d.params (uses t ht), ← same]
  refine TypeRef.substitute_withPlaceholders (fun name => ?_) (uses t ht)
  rw [same, isSome_standsFor?]

/-- Arguments are instantiated before they are filled in or after it. -/
theorem substitute_canonical_map (n : Normalizer) (tidy : d.isTidy = true) (ht : t ∈ d.uses)
    (args : List TypeRef) (bindings : Bindings) :
    (t.canonical n d.params).substitute
        (d.bindingsFor (args.map (TypeRef.substitute bindings))) =
      ((t.canonical n d.params).substitute (d.bindingsFor args)).substitute bindings := by
  obtain ⟨-, uses, bounds⟩ := isTidy_iff.mp tidy
  rw [substitute_canonical n tidy ht, substitute_canonical n tidy ht,
    TypeRef.substitute_fillIn _ _ (uses t ht)]
  exact congrArg (TypeRef.fillIn · t) (funext (standsFor?_map bounds args bindings))

/-- Whatever the arguments of an occurrence are, they take the places of the parameters in the
types of the declaration, all at once.  Where the arguments are instantiated in turn, so are the
types. -/
structure Instantiates (n : Normalizer) (d : Decl) : Prop where
  fills {t : TypeRef} (args : List TypeRef) : t ∈ d.uses →
    (t.canonical n d.params).substitute (d.bindingsFor args) = t.fillIn (d.standsFor? args)
  /-- Where a parameter is mentioned, the argument stands as it was given. -/
  mention {t : TypeRef} {path : List Nat} {i : Nat} {p : TypeParam} (args : List TypeRef) :
    t ∈ d.uses → d.params[i]? = some p → t.partAt? path = some (.plain p.name) →
      ((t.canonical n d.params).substitute (d.bindingsFor args)).partAt? path =
        some (args[i]?.getD p.fallback)
  composes {t : TypeRef} (args : List TypeRef) (bindings : Bindings) : t ∈ d.uses →
    (t.canonical n d.params).substitute
        (d.bindingsFor (args.map (TypeRef.substitute bindings))) =
      ((t.canonical n d.params).substitute (d.bindingsFor args)).substitute bindings

theorem instantiates_of_isTidy (n : Normalizer) (tidy : d.isTidy = true) : d.Instantiates n where
  fills args ht := substitute_canonical n tidy ht args
  mention args ht param there := by
    obtain ⟨distinct, uses, -⟩ := isTidy_iff.mp tidy
    rw [substitute_canonical n tidy ht, TypeRef.partAt?_fillIn (uses _ ht) there,
      standsFor?_of_getElem? distinct param, Option.getD_some]
  composes args bindings ht := substitute_canonical_map n tidy ht args bindings

end Decl

/-! ### Ancestors -/

namespace Universe

variable {u : Universe} {t : TypeRef} {d : Decl}

/-- The parents of instantiated arguments are the parents of the arguments, instantiated. -/
def Composes (u : Universe) : Prop :=
  ∀ name d, u.get? name = some d → ∀ parent ∈ d.parents, ∀ args bindings,
    parent.substitute (d.bindingsFor (args.map (TypeRef.substitute bindings))) =
      (parent.substitute (d.bindingsFor args)).substitute bindings

theorem composes_insertAll (n : Normalizer) {ds : List Decl} (tidy : ∀ d ∈ ds, d.isTidy = true) :
    ((initial n).insertAll ds).Composes := by
  intro name d declared parent hparent args bindings
  rcases of_get?_insertAll declared with builtIn | ⟨inserted, hmem, n, rfl⟩
  · have bare := isBare_of_get?_initial builtIn
    simp only [Decl.isBare, Bool.and_eq_true, List.isEmpty_iff] at bare
    rw [bare.1.1.1.1.2] at hparent
    cases hparent
  · rw [Decl.parents_canonical] at hparent
    obtain ⟨raw, hraw, rfl⟩ := List.mem_map.mp hparent
    exact Decl.substitute_canonical_map n (tidy inserted hmem) (List.mem_append_left _ hraw) args
      bindings

theorem declOf?_substitute (declared : u.declOf? t = some d) (bindings : Bindings) :
    u.declOf? (t.substitute bindings) = some d := by
  cases t with
  | named name args directives => exact declared
  | array | placeholder | wildcard => cases declared

theorem bindings_substitute (declared : u.declOf? t = some d) (bindings : Bindings) :
    u.bindings (t.substitute bindings) =
      d.bindingsFor (t.args.map (TypeRef.substitute bindings)) := by
  rw [Universe.bindings, declOf?_substitute declared]
  cases t with
  | named name args directives =>
    rw [TypeRef.substitute, TypeRef.substituteAll_eq_map]
    rfl
  | array | placeholder | wildcard => cases declared

namespace Composes

variable (h : u.Composes)

include h

theorem composedOf (declared : u.declOf? t = some d) (bindings : Bindings) :
    u.composedOf (t.substitute bindings) =
      (u.composedOf t).map (TypeRef.substitute bindings) := by
  obtain ⟨name, -, hget⟩ := Option.bind_eq_some_iff.mp declared
  rw [composedOf_of_declOf? declared, composedOf_of_declOf? (declOf?_substitute declared bindings),
    bindings_substitute declared, List.map_map]
  refine List.map_congr_left fun parent hparent => ?_
  rw [h name d hget parent (mem_composedParents hparent).1, Function.comp_apply, Universe.bindings,
    declared]

/-- One step of the walk enters an ancestor and makes its own pending. -/
theorem lineageFrom {steps : Nat} {seen : List String} {pending : List TypeRef}
    (declared : ∀ t ∈ pending, ∃ d, u.declOf? t = some d) (bindings : Bindings) :
    u.lineageFrom steps seen (pending.map (TypeRef.substitute bindings)) =
      (u.lineageFrom steps seen pending).map (TypeRef.substitute bindings) := by
  induction steps generalizing seen pending with
  | zero => rfl
  | succ steps ih =>
    cases pending with
    | nil => rfl
    | cons t pending =>
      obtain ⟨⟨d, hd⟩, others⟩ := List.forall_mem_cons.mp declared
      rw [List.map_cons, Universe.lineageFrom, Universe.lineageFrom, hd, declOf?_substitute hd]
      dsimp only
      split
      · exact ih others
      · rw [← composedOf_of_declOf? hd, ← composedOf_of_declOf? (declOf?_substitute hd bindings),
          h.composedOf hd, ← List.map_append, List.map_cons]
        refine congrArg _ (ih (List.forall_mem_append.mpr ⟨fun parent hparent => ?_, others⟩))
        obtain ⟨above, habove, -⟩ := declared_of_mem_composedOf hparent
        exact ⟨above, habove⟩

/-- The lineage of an instantiated type is the lineage of the type, instantiated. -/
theorem lineage (declared : u.declOf? t = some d) (bindings : Bindings) :
    u.lineage d (u.bindings (t.substitute bindings)) =
      (u.lineage d (u.bindings t)).map (TypeRef.substitute bindings) := by
  rw [Universe.lineage, Universe.lineage, ← composedOf_of_declOf? declared,
    ← composedOf_of_declOf? (declOf?_substitute declared bindings), h.composedOf declared]
  refine h.lineageFrom (fun parent hparent => ?_) bindings
  obtain ⟨above, habove, -⟩ := declared_of_mem_composedOf hparent
  exact ⟨above, habove⟩

end Composes

end Universe

/-- Arguments take the places of parameters at the same time and at every depth, and what they are
instantiated with in turn reaches all that is above an occurrence, through however many
declarations. -/
theorem instantiates (n : Normalizer) :
    (∀ d : Decl, d.isTidy = true → d.Instantiates n) ∧
    ∀ ds : List Decl, (∀ d ∈ ds, d.isTidy = true) → ∀ (t : TypeRef) (d : Decl),
      ((Universe.initial n).insertAll ds).declOf? t = some d → ∀ bindings : Bindings,
        ((Universe.initial n).insertAll ds).lineage d
            (((Universe.initial n).insertAll ds).bindings (t.substitute bindings)) =
          (((Universe.initial n).insertAll ds).lineage d
            (((Universe.initial n).insertAll ds).bindings t)).map
              (TypeRef.substitute bindings) :=
  ⟨fun _ tidy => Decl.instantiates_of_isTidy n tidy, fun _ tidy _ _ declared bindings =>
    (Universe.composes_insertAll n tidy).lineage declared bindings⟩

/-- A record whose parameters have the names of those of its parent, in another order. -/
def turnedPair : Decl :=
  { name := "com.acme.Turned", params := [⟨"U", []⟩, ⟨"T", [.plain "number"]⟩],
    superType := some (.generic "com.acme.Pair"
      [.generic "list" [.array (.plain "T")], .wildcard [.plain "U"]]) }

/-- A record that gives its parent one argument of two. -/
def namedPair : Decl :=
  { name := "com.acme.Named", params := [⟨"T", []⟩],
    superType := some (.generic "com.acme.Turned" [.generic "optional" [.plain "T"]]) }

def pairs : List Decl :=
  [{ name := "com.acme.Pair", params := [⟨"T", []⟩, ⟨"U", []⟩],
     members := [{ name := "both", type := .generic "map" [.plain "T", .plain "U"] }] },
    turnedPair, namedPair]

/-- A type that is called like a parameter is not taken for it, and two declarations up it stands
where it belongs. -/
theorem instantiates_pairs :
    (∀ d ∈ pairs, d.isTidy = true) ∧
    (∀ t ∈ turnedPair.uses, (t.canonical .standard turnedPair.params).substitute
        (turnedPair.bindingsFor [.plain "T"]) =
      .generic "com.acme.Pair"
        [.generic "list" [.array (.plain "number")], .wildcard [.plain "T"]]) ∧
    ((Universe.initial .standard).insertAll pairs).lineage (namedPair.canonical .standard)
        (((Universe.initial .standard).insertAll pairs).bindings
          ((TypeRef.generic "com.acme.Named" [.placeholder "S" []]).substitute
            [("S", .plain "U")])) =
      [.generic "com.acme.Turned" [.generic "optional" [.plain "U"]],
        .generic "com.acme.Pair"
          [.generic "list" [.array (.plain "number")],
            .wildcard [.generic "optional" [.plain "U"]]]] := by
  have tidy : ∀ d ∈ pairs, d.isTidy = true := by decide +kernel
  have turned : turnedPair ∈ pairs := List.mem_cons_of_mem _ List.mem_cons_self
  refine ⟨tidy, fun t ht => ?_, ?_⟩
  · obtain rfl := List.mem_singleton.mp ht
    exact (((instantiates .standard).1 turnedPair (tidy _ turned)).fills _ ht).trans rfl
  · exact ((instantiates .standard).2 pairs tidy _ _ rfl _).trans rfl

end Schemata
