import Mathlib.Data.List.Forall2
import Schemata.Proofs.Universe.Concrete
import Schemata.Proofs.Universe.Scope

/-!
# Directives at the uses of types

A declaration that is inserted has directives at the types it extends and at those of its members,
and inside of these at every depth.  Two rewritings go through such a type one after the other: the
first puts placeholders for bare mentions of the parameters, the second normalizes the directives.
They do not stop at the same types: the first goes into the bounds of a wildcard and the second
does not.  So what is written below a bound is stored as it is written, and what is written at a
bare mention is lost with it.
-/
namespace Schemata

namespace TypeRef

/-- What stands at a position: the numbers of the parts on the way to it. -/
def partAt? : TypeRef → List Nat → Option TypeRef
  | t, [] => some t
  | t, i :: path => t.parts[i]?.bind fun part => part.partAt? path

/-- Whether the way to a position leads through the parts of such a type. -/
def isBelow (stops : TypeRef → Bool) : TypeRef → List Nat → Bool
  | _, [] => false
  | t, i :: path => stops t || t.parts[i]?.any fun part => part.isBelow stops path

theorem partAt?_cons {t s : TypeRef} {i : Nat} {path : List Nat} :
    t.partAt? (i :: path) = some s ↔
      ∃ part, t.parts[i]? = some part ∧ part.partAt? path = some s :=
  Option.bind_eq_some_iff

theorem isBelow_cons {stops : TypeRef → Bool} {t part : TypeRef} {i : Nat}
    (h : t.parts[i]? = some part) (path : List Nat) :
    t.isBelow stops (i :: path) = (stops t || part.isBelow stops path) := by
  rw [isBelow, h, Option.any_some]

/-- What stops at fewer types lets more through. -/
theorem isBelow_mono {stops stops' : TypeRef → Bool}
    (fewer : ∀ t, stops t = true → stops' t = true) {t : TypeRef} {path : List Nat}
    (h : t.isBelow stops path = true) : t.isBelow stops' path = true := by
  induction path generalizing t with
  | nil => cases h
  | cons i path ih =>
    rw [isBelow, Bool.or_eq_true] at h ⊢
    refine h.imp (fewer t) fun inside => ?_
    obtain ⟨part, hpart, below⟩ := (Option.any_eq_true _ _).mp inside
    exact (Option.any_eq_true _ _).mpr ⟨part, hpart, ih below⟩

/-! ### Rewriting -/

/-- A rewriting leaves some types as they are and goes into the parts of all others. -/
structure Descends (f : TypeRef → TypeRef) (stops : TypeRef → Bool) : Prop where
  whole {t : TypeRef} : stops t = true → f t = t
  into {t part : TypeRef} {i : Nat} :
    stops t = false → t.parts[i]? = some part → (f t).parts[i]? = some (f part)

namespace Descends

variable {f : TypeRef → TypeRef} {stops : TypeRef → Bool} (hf : Descends f stops)

include hf

/-- No position is lost, and what stands there is rewritten unless it is stopped on the way. -/
theorem partAt? {t s : TypeRef} {path : List Nat} (h : t.partAt? path = some s) :
    (f t).partAt? path = some (if t.isBelow stops path then s else f s) := by
  induction path generalizing t with
  | nil =>
    cases h
    rfl
  | cons i path ih =>
    obtain ⟨part, hpart, inside⟩ := partAt?_cons.mp h
    rw [isBelow_cons hpart]
    cases stopped : stops t with
    | true =>
      rw [hf.whole stopped]
      exact h
    | false => exact partAt?_cons.mpr ⟨f part, hf.into stopped hpart, ih inside⟩

/-- What is below other types before the rewriting is so after it, if it makes no more of them. -/
theorem isBelow {others : TypeRef → Bool}
    (same : ∀ t, t.parts ≠ [] → others (f t) = others t) {t s : TypeRef} {path : List Nat}
    (h : t.partAt? path = some s) : (f t).isBelow others path = t.isBelow others path := by
  induction path generalizing t with
  | nil => rfl
  | cons i path ih =>
    obtain ⟨part, hpart, inside⟩ := partAt?_cons.mp h
    cases stopped : stops t with
    | true => rw [hf.whole stopped]
    | false =>
      have made : t.parts ≠ [] := by
        rintro none
        rw [none] at hpart
        cases hpart
      rw [isBelow_cons (hf.into stopped hpart), isBelow_cons hpart, ih inside, same t made]

end Descends

def isPlaceholder : TypeRef → Bool
  | .placeholder _ _ => true
  | _ => false

/-- Whether the parts of a type are bounds. -/
def isBounded : TypeRef → Bool
  | .placeholder _ _ | .wildcard _ => true
  | _ => false

/-- Whether a type is one of the parameters, without arguments. -/
def isMention (params : List TypeParam) : TypeRef → Bool
  | .named name [] _ => (params.find? (·.name = name)).isSome
  | _ => false

/-- A rewriting goes into the arguments of a type, the element of an array and the bounds of a
wildcard. -/
structure Pervades (f : TypeRef → TypeRef) : Prop where
  named (name : String) (arg : TypeRef) (rest : List TypeRef) (directives : Directives) :
    f (.named name (arg :: rest) directives) = .named name ((arg :: rest).map f) directives
  array (element : TypeRef) : f (.array element) = .array (f element)
  wildcard (bounds : List TypeRef) : f (.wildcard bounds) = .wildcard (bounds.map f)

theorem Pervades.descends {f : TypeRef → TypeRef} (hf : Pervades f)
    (placeholder : ∀ name bounds, f (.placeholder name bounds) = .placeholder name bounds) :
    Descends f isPlaceholder where
  whole {t} stopped := by
    cases t with
    | placeholder name bounds => exact placeholder name bounds
    | named | array | wildcard => cases stopped
  into {t part i} entered hpart := by
    have inside : (t.parts.map f)[i]? = some (f part) := by
      rw [List.getElem?_map, hpart, Option.map_some]
    cases t with
    | named name args directives =>
      cases args with
      | nil => cases hpart
      | cons arg rest =>
        rw [hf.named]
        exact inside
    | array element =>
      rw [hf.array]
      exact inside
    | placeholder name bounds => cases entered
    | wildcard bounds =>
      rw [hf.wildcard]
      exact inside

theorem Pervades.withPlaceholders (params : List TypeParam) :
    Pervades (withPlaceholders params) where
  named name arg rest directives := by
    rw [TypeRef.withPlaceholders, withPlaceholdersAll_eq_map]
    exact List.cons_ne_nil _ _
  array _ := rfl
  wildcard bounds := by rw [TypeRef.withPlaceholders, withPlaceholdersAll_eq_map]

theorem descends_withPlaceholders (params : List TypeParam) :
    Descends (withPlaceholders params) isPlaceholder :=
  (Pervades.withPlaceholders params).descends fun _ _ => rfl

theorem descends_normalized (n : Normalizer) : Descends (normalized n) isBounded where
  whole {t} stopped := by
    cases t with
    | placeholder name bounds => rfl
    | wildcard bounds => rfl
    | named | array => cases stopped
  into {t part i} entered hpart := by
    have inside : (t.parts.map (normalized n))[i]? = some (part.normalized n) := by
      rw [List.getElem?_map, hpart, Option.map_some]
    cases t with
    | named name args directives =>
      rw [normalized, normalizedAll_eq_map]
      exact inside
    | array element => exact inside
    | placeholder | wildcard => cases entered

theorem isBounded_withPlaceholders (params : List TypeParam) (t : TypeRef) (made : t.parts ≠ []) :
    (t.withPlaceholders params).isBounded = t.isBounded := by
  cases t with
  | named name args directives =>
    cases args with
    | nil => exact absurd rfl made
    | cons arg rest => rfl
  | array | placeholder | wildcard => rfl

theorem directives_withPlaceholders (params : List TypeParam) (t : TypeRef) :
    (t.withPlaceholders params).directives =
      if t.isMention params then [] else t.directives := by
  cases t with
  | named name args directives =>
    cases args with
    | nil =>
      rw [withPlaceholders, isMention]
      cases params.find? (·.name = name) <;> rfl
    | cons arg rest => rfl
  | array | placeholder | wildcard => rfl

example : (named "T" [] [(.nullable, [])]).withPlaceholders [⟨"T", []⟩] = placeholder "T" [] := rfl

theorem directives_normalized (n : Normalizer) (t : TypeRef) :
    (t.normalized n).directives = n.normalizeAll t.directives := by
  cases t <;> rfl

/-! ### Inserted types -/

/-- What is left of the directives at a position: none if a placeholder takes the place of the
type. -/
def keptDirectives (params : List TypeParam) (t : TypeRef) (path : List Nat) (s : TypeRef) :
    Directives :=
  if !t.isBelow isPlaceholder path && s.isMention params then [] else s.directives

/-- The directives that are stored at a position: what is left, as it is written below a bound. -/
def storedDirectives (n : Normalizer) (params : List TypeParam) (t : TypeRef) (path : List Nat)
    (s : TypeRef) : Directives :=
  if t.isBelow isBounded path then t.keptDirectives params path s
  else n.normalizeAll (t.keptDirectives params path s)

/-- The directives at a position come to nothing else than their normal form: below a bound they
are written in it, and at a mention of a parameter there are none. -/
def SettledAt (n : Normalizer) (params : List TypeParam) (t : TypeRef) (path : List Nat)
    (s : TypeRef) : Prop :=
  (t.isBelow isBounded path = true → n.normalizeAll s.directives = s.directives) ∧
    (t.isBelow isPlaceholder path = false → s.isMention params = true → s.directives = [])

/-- Each position of the one type is one of the other, with what is stored there. -/
def StoredAs (n : Normalizer) (params : List TypeParam) (written stored : TypeRef) : Prop :=
  ∀ ⦃path s⦄, written.partAt? path = some s → ∃ s', stored.partAt? path = some s' ∧
    s'.directives = written.storedDirectives n params path s

theorem storedAs_canonical (n : Normalizer) (params : List TypeParam) (t : TypeRef) :
    StoredAs n params t (t.canonical n params) := by
  intro path s h
  have first := (descends_withPlaceholders params).partAt? h
  have bounded :=
    (descends_withPlaceholders params).isBelow (isBounded_withPlaceholders params) h
  have kept : (if t.isBelow isPlaceholder path then s else s.withPlaceholders params).directives =
      t.keptDirectives params path s := by
    rw [keptDirectives]
    cases t.isBelow isPlaceholder path with
    | false => exact directives_withPlaceholders params s
    | true => rfl
  refine ⟨_, (descends_normalized n).partAt? first, ?_⟩
  rw [bounded, storedDirectives]
  split
  · exact kept
  · rw [directives_normalized, kept]

theorem isBelow_isBounded_of_isPlaceholder {t : TypeRef} {path : List Nat}
    (h : t.isBelow isPlaceholder path = true) : t.isBelow isBounded path = true := by
  refine isBelow_mono (fun t placeholder => ?_) h
  cases t with
  | placeholder => rfl
  | named | array | wildcard => cases placeholder

theorem normalizeAll_eq_nil {n : Normalizer} {ds : Directives} :
    n.normalizeAll ds = [] ↔ ds = [] :=
  List.map_eq_nil_iff

/-- What is stored is the normal form of what is written where that is settled, and only there. -/
theorem storedDirectives_eq_iff {n : Normalizer} {params : List TypeParam} {t s : TypeRef}
    {path : List Nat} : t.storedDirectives n params path s = n.normalizeAll s.directives ↔
      t.SettledAt n params path s := by
  have lost : [] = n.normalizeAll s.directives ↔ s.directives = [] :=
    eq_comm.trans normalizeAll_eq_nil
  have asWritten : s.directives = n.normalizeAll s.directives ↔
      n.normalizeAll s.directives = s.directives := eq_comm
  unfold storedDirectives keptDirectives SettledAt
  cases bounded : t.isBelow isBounded path with
  | false =>
    have free : t.isBelow isPlaceholder path = false :=
      Bool.eq_false_iff.mpr fun placeholder =>
        Bool.eq_false_iff.mp bounded (isBelow_isBounded_of_isPlaceholder placeholder)
    cases s.isMention params with
    | false => simp
    | true => simpa [free] using lost
  | true =>
    cases t.isBelow isPlaceholder path with
    | true => simpa using asWritten
    | false =>
      cases s.isMention params with
      | false => simpa using asWritten
      | true =>
        simp only [Bool.not_false, Bool.and_self, if_true, true_imp_iff, lost]
        refine ⟨fun none => ⟨?_, none⟩, And.right⟩
        rw [none, Normalizer.normalizeAll_nil]

/-- Each position of the one type is one of the other, where the directives are in normal form. -/
def NormalizedAs (n : Normalizer) (written stored : TypeRef) : Prop :=
  ∀ ⦃path s⦄, written.partAt? path = some s → ∃ s', stored.partAt? path = some s' ∧
    s'.directives = n.normalizeAll s.directives

theorem normalizedAs_iff {n : Normalizer} {params : List TypeParam} {t stored : TypeRef}
    (held : StoredAs n params t stored) : NormalizedAs n t stored ↔
      ∀ ⦃path s⦄, t.partAt? path = some s → t.SettledAt n params path s := by
  refine forall₂_congr fun path s => imp_congr_right fun h => ?_
  obtain ⟨s', there, directives⟩ := held h
  rw [← storedDirectives_eq_iff, ← directives]
  simp [there]

end TypeRef

namespace Decl

/-- The types that a declaration extends and those of its members. -/
def uses (d : Decl) : List TypeRef := d.parents ++ d.members.map Member.type

/-- The types of two declarations stand in a relation place by place. -/
structure Alongside (related : TypeRef → TypeRef → Prop) (d d' : Decl) : Prop where
  superType : Option.Rel related d.superType d'.superType
  interfaces : List.Forall₂ related d.interfaces d'.interfaces
  members : List.Forall₂ (fun m m' => related m.type m'.type) d.members d'.members

theorem alongside_canonical_iff {related : TypeRef → TypeRef → Prop} {n : Normalizer} {d : Decl} :
    d.Alongside related (d.canonical n) ↔
      ∀ t ∈ d.uses, related t (t.canonical n d.params) := by
  have superType : Option.Rel related d.superType (d.canonical n).superType ↔
      ∀ t ∈ d.superType.toList, related t (t.canonical n d.params) := by
    rw [canonical]
    cases d.superType <;> simp
  have interfaces : List.Forall₂ related d.interfaces (d.canonical n).interfaces ↔
      ∀ t ∈ d.interfaces, related t (t.canonical n d.params) := by
    rw [canonical, List.forall₂_map_right_iff, List.forall₂_same]
  have members :
      List.Forall₂ (fun m m' => related m.type m'.type) d.members (d.canonical n).members ↔
        ∀ t ∈ d.members.map Member.type, related t (t.canonical n d.params) := by
    rw [canonical, List.forall₂_map_right_iff, List.forall₂_same, List.forall_mem_map]
  rw [uses, parents, List.forall_mem_append, List.forall_mem_append, ← superType, ← interfaces,
    ← members]
  exact ⟨fun h => ⟨⟨h.1, h.2⟩, h.3⟩, fun h => ⟨h.1.1, h.1.2, h.2⟩⟩

end Decl

/-- A declaration is stored with all positions of its types.  Their directives are in normal form
but for what is written below a bound, which stays as it is, and at a mention of a parameter, which
is lost: so all are in normal form if and only if those were settled before. -/
theorem Universe.directives_of_insert (u : Universe) (d : Decl) :
    ∃ stored, (u.insert d).get? d.name = some stored ∧
      d.Alongside (TypeRef.StoredAs u.normalizer d.params) stored ∧
      (d.Alongside (TypeRef.NormalizedAs u.normalizer) stored ↔ ∀ t ∈ d.uses, ∀ ⦃path s⦄,
        t.partAt? path = some s → t.SettledAt u.normalizer d.params path s) := by
  have held (t : TypeRef) := TypeRef.storedAs_canonical u.normalizer d.params t
  refine ⟨d.canonical u.normalizer, (u.get?_insert d d.name).trans (if_pos rfl),
    Decl.alongside_canonical_iff.mpr fun t _ => held t, ?_⟩
  rw [Decl.alongside_canonical_iff]
  exact forall₂_congr fun t _ => TypeRef.normalizedAs_iff (held t)

/-- A pattern at the bound of a wildcard. -/
def patternedBox : Decl where
  name := "com.acme.Box"
  params := [⟨"T", []⟩]
  members := [
    { name := "items"
      type := .generic "list"
        [.wildcard [.named "string" [] [(.pattern, [("value", .str "^a")])]]] }]

/-- The pattern is stored as it is written. -/
theorem not_normalizedAs_patternedBox :
    ¬ ∃ stored,
      ((Universe.initial .standard).insert patternedBox).get? "com.acme.Box" = some stored ∧
        patternedBox.Alongside (TypeRef.NormalizedAs .standard) stored := by
  rintro ⟨stored, declared, normalized⟩
  rw [Universe.get?_insert, if_pos (by rfl)] at declared
  cases declared
  have settled := (TypeRef.normalizedAs_iff (TypeRef.storedAs_canonical _ _ _)).mp
    (Decl.alongside_canonical_iff.mp normalized _ (List.mem_singleton_self _))
  have bound := @settled [0, 0] (.named "string" [] [(.pattern, [("value", .str "^a")])]) rfl
  have keys := congrArg (List.map fun entry => Assoc.keys entry.2) (bound.1 rfl)
  exact absurd keys (by decide)

end Schemata
