import Mathlib.Data.Finset.Card
import Mathlib.Logic.Relation
import Schemata.Proofs.Naming.Mangling

/-!
# How deep a name goes

To write an occurrence is to enter, one after the other, those of its arguments, or what takes
their place, that were not seen before.  What is seen grows with every entry and never leaves the
displays of what stands in the type, in the bounds of the declared parameters and in the
replacements, however a bound mentions its own parameter or a replacement what it replaces.  So no
chain of entries goes on for ever, and beyond some depth the name is always the same.
-/
namespace Schemata

/-- The bounds of a parameter; without any it is bounded by the type of every value. -/
def TypeParam.upperBounds (p : TypeParam) : List TypeRef :=
  if p.bounds.isEmpty then [.object] else p.bounds

theorem TypeParam.fallback_mem_upperBounds (p : TypeParam) : p.fallback ∈ p.upperBounds := by
  rw [fallback, upperBounds]
  cases p.bounds with
  | nil => exact List.mem_singleton_self _
  | cons bound rest => exact List.mem_cons_self

namespace Mangle

variable {c : Config} {u : Universe}

/-! ### What is seen -/

/-- What has been seen after some arguments were written. -/
def seenAfter (c : Config) (u : Universe) (depth : Nat) (args : List TypeRef)
    (seen : List String) : Option (List String) :=
  (mangleArgs c u (mangle c u depth) args seen).map Prod.snd

variable {depth : Nat} {args : List TypeRef} {arg t : TypeRef} {seen later : List String}

theorem seenAfter_nil : seenAfter c u depth [] seen = some seen := rfl

theorem map_mangleArg : (mangleArg c u (mangle c u depth) arg seen).map Prod.snd =
    if (replaced c arg).display ∈ seen then some seen
    else (mangle c u depth (replaced c arg) seen).map Prod.snd := by
  unfold mangleArg
  by_cases met : (replaced c arg).display ∈ seen
  · simp [met]
  · simp only [List.contains_iff_mem, met, if_false, Option.map_map]
    rfl

theorem seenAfter_cons : seenAfter c u depth (arg :: args) seen =
    if (replaced c arg).display ∈ seen then seenAfter c u depth args seen
    else (mangle c u depth (replaced c arg) seen).bind fun r => seenAfter c u depth args r.2 := by
  have first : seenAfter c u depth (arg :: args) seen =
      ((mangleArg c u (mangle c u depth) arg seen).map Prod.snd).bind
        (seenAfter c u depth args) := by
    cases args with
    | nil =>
      rw [seenAfter, mangleArgs]
      cases mangleArg c u (mangle c u depth) arg seen <;> rfl
    | cons next rest =>
      simp only [seenAfter, mangleArgs]
      cases mangleArg c u (mangle c u depth) arg seen with
      | none => rfl
      | some r =>
        simp only [Option.bind_eq_bind, Option.bind_some, Option.map_some, seenAfter]
        cases mangleArgs c u (mangle c u depth) (next :: rest) r.2 <;> rfl
  rw [first, map_mangleArg]
  split
  · rfl
  · cases mangle c u depth (replaced c arg) seen <;> rfl

theorem seenAfter_append {before : List TypeRef}
    (written : seenAfter c u depth before seen = some later) (args : List TypeRef) :
    seenAfter c u depth (before ++ args) seen = seenAfter c u depth args later := by
  induction before generalizing seen with
  | nil =>
    cases written
    rfl
  | cons arg before ih =>
    rw [List.cons_append, seenAfter_cons]
    rw [seenAfter_cons] at written
    split
    · rename_i met
      rw [if_pos met] at written
      exact ih written
    · rename_i new
      rw [if_neg new] at written
      obtain ⟨r, inner, rest⟩ := Option.bind_eq_some_iff.mp written
      rw [inner, Option.bind_some]
      exact ih rest

/-- To write an occurrence is to write its arguments, the occurrence itself being seen. -/
theorem map_mangle_succ : (mangle c u (depth + 1) t seen).map Prod.snd =
    seenAfter c u depth (effectiveArgs u t) (t.display :: seen) := by
  rw [mangle]
  cases effectiveArgs u t with
  | nil => rfl
  | cons arg args =>
    dsimp only
    rw [seenAfter, Option.map_map]
    rfl

/-! ### More depth changes nothing -/

/-- One writer says what another says wherever that one ends. -/
def Continues (inner more : Writer) : Prop :=
  ∀ t seen r, inner t seen = some r → more t seen = some r

theorem Continues.mangleArgs {inner more : Writer} (h : Continues inner more)
    {r : String × List String} (found : mangleArgs c u inner args seen = some r) :
    mangleArgs c u more args seen = some r := by
  have one {arg : TypeRef} {seen : List String} {r : String × List String}
      (found : mangleArg c u inner arg seen = some r) : mangleArg c u more arg seen = some r := by
    unfold mangleArg at found ⊢
    dsimp only at found ⊢
    split
    · rename_i met
      rwa [if_pos met] at found
    · rename_i new
      rw [if_neg new] at found
      obtain ⟨r', inner', rfl⟩ := Option.map_eq_some_iff.mp found
      rw [h _ _ _ inner', Option.map_some]
  induction args generalizing seen r with
  | nil => exact found
  | cons arg rest ih =>
    cases rest with
    | nil => exact one found
    | cons next rest =>
      simp only [Mangle.mangleArgs, Option.bind_eq_bind] at found ⊢
      obtain ⟨first, hfirst, found⟩ := Option.bind_eq_some_iff.mp found
      obtain ⟨others, hothers, found⟩ := Option.bind_eq_some_iff.mp found
      rw [one hfirst, Option.bind_some, ih hothers, Option.bind_some]
      exact found

theorem continues_succ (c : Config) (u : Universe) (depth : Nat) :
    Continues (mangle c u depth) (mangle c u (depth + 1)) := by
  induction depth with
  | zero => exact fun _ _ _ found => by cases found
  | succ depth ih =>
    intro t seen r found
    rw [mangle] at found ⊢
    split
    · rename_i none
      rwa [none] at found
    · rename_i args other
      revert found
      split
      · rename_i none
        exact absurd none other
      · intro found
        obtain ⟨text, written, rfl⟩ := Option.map_eq_some_iff.mp found
        rw [ih.mangleArgs written, Option.map_some]

theorem continues_of_le {more : Nat} (le : depth ≤ more) :
    Continues (mangle c u depth) (mangle c u more) := by
  induction le with
  | refl => exact fun _ _ _ found => found
  | step _ ih => exact fun t seen r found => continues_succ c u _ t seen r (ih t seen r found)

/-- Two depths at which arguments are written show the same. -/
theorem seenAfter_unique {other : Nat} {later' : List String}
    (written : seenAfter c u depth args seen = some later)
    (written' : seenAfter c u other args seen = some later') : later = later' := by
  obtain ⟨r, found, rfl⟩ := Option.map_eq_some_iff.mp written
  obtain ⟨r', found', rfl⟩ := Option.map_eq_some_iff.mp written'
  have left := (continues_of_le (Nat.le_max_left depth other)).mangleArgs found
  have right := (continues_of_le (Nat.le_max_right depth other)).mangleArgs found'
  rw [left] at right
  rw [Option.some.inj right]

/-! ### Entries -/

/-- An occurrence that is about to be written, and what has been seen before it. -/
structure Entry where
  type : TypeRef
  seen : List String

/-- To write an occurrence, what stands for an argument is entered once the arguments before it
are written, unless it was seen by then. -/
inductive Enters (c : Config) (u : Universe) : Entry → Entry → Prop where
  | argument {t arg : TypeRef} {seen later : List String} {before after : List TypeRef}
      {depth : Nat} (args : effectiveArgs u t = before ++ arg :: after)
      (written : seenAfter c u depth before (t.display :: seen) = some later)
      (new : (replaced c arg).display ∉ later) :
      Enters c u ⟨t, seen⟩ ⟨replaced c arg, later⟩

/-- All that is entered for further arguments is written. -/
def WritesEntries (c : Config) (u : Universe) (depth : Nat) (start : List String)
    (done rest : List TypeRef) : Prop :=
  ∀ before arg after, rest = before ++ arg :: after → ∀ other later,
    seenAfter c u other (done ++ before) start = some later → (replaced c arg).display ∉ later →
      (mangle c u depth (replaced c arg) later).isSome

theorem writesEntries_cons {start : List String} {done rest : List TypeRef} :
    WritesEntries c u depth start done (arg :: rest) ↔
      (∀ other later, seenAfter c u other done start = some later →
        (replaced c arg).display ∉ later → (mangle c u depth (replaced c arg) later).isSome) ∧
      WritesEntries c u depth start (done ++ [arg]) rest := by
  constructor
  · intro all
    refine ⟨fun other later reached new => all [] arg rest rfl other later (by simpa) new, ?_⟩
    intro before next after cut other later reached new
    exact all (arg :: before) next after (by rw [cut]; rfl) other later (by simpa using reached) new
  · rintro ⟨first, others⟩ before next after cut other later reached new
    cases before with
    | nil =>
      obtain ⟨rfl, rfl⟩ := List.cons.inj cut
      exact first other later (by simpa using reached) new
    | cons _ before =>
      obtain ⟨rfl, rfl⟩ := List.cons.inj cut
      exact others before next after rfl other later (by simpa using reached) new

/-- Further arguments are written if and only if all that is entered for them is. -/
theorem isSome_seenAfter_iff {start : List String} {done rest : List TypeRef}
    (written : seenAfter c u depth done start = some seen) :
    (seenAfter c u depth rest seen).isSome ↔ WritesEntries c u depth start done rest := by
  induction rest generalizing done seen with
  | nil =>
    refine ⟨fun _ before arg after cut => ?_, fun _ => rfl⟩
    exact absurd cut.symm (List.append_ne_nil_of_right_ne_nil before (List.cons_ne_nil _ _))
  | cons arg rest ih =>
    have more := seenAfter_append written [arg]
    rw [seenAfter_cons] at more
    rw [writesEntries_cons, seenAfter_cons]
    split
    · rename_i met
      rw [if_pos met] at more
      rw [ih more, iff_and_self]
      intro _ other later reached new
      obtain rfl := seenAfter_unique reached written
      exact absurd met new
    · rename_i new
      rw [if_neg new] at more
      cases entered : mangle c u depth (replaced c arg) seen with
      | none =>
        refine ⟨(fun ends => by cases ends), fun all => ?_⟩
        have ends := all.1 depth seen written new
        rw [entered] at ends
        cases ends
      | some r =>
        rw [entered] at more
        rw [Option.bind_some, ih more, iff_and_self]
        intro _ other later reached _
        obtain rfl := seenAfter_unique reached written
        rw [entered]
        rfl

/-- An occurrence is written, with one more of depth, if and only if all that it enters is. -/
theorem isSome_mangle_iff (depth : Nat) (e : Entry) :
    (mangle c u (depth + 1) e.type e.seen).isSome ↔
      ∀ inner, Enters c u e inner → (mangle c u depth inner.type inner.seen).isSome := by
  rw [← Option.isSome_map (f := Prod.snd), map_mangle_succ,
    isSome_seenAfter_iff seenAfter_nil]
  constructor
  · intro all inner enters
    cases enters with
    | argument cut written new => exact all _ _ _ cut _ _ written new
  · intro all before arg after cut other later written new
    exact all _ (.argument cut written new)

/-! ### Growth -/

/-- What was seen is still seen, and what is new is among some names. -/
structure Adds (names seen later : List String) : Prop where
  kept : seen ⊆ later
  within : later ⊆ names ++ seen

theorem Adds.refl (names seen : List String) : Adds names seen seen :=
  ⟨List.Subset.refl _, List.subset_append_right _ _⟩

theorem Adds.trans {names last : List String} (h : Adds names seen later)
    (h' : Adds names later last) : Adds names seen last := by
  refine ⟨List.Subset.trans h.kept h'.kept, fun name hname => ?_⟩
  rcases List.mem_append.mp (h'.within hname) with new | old
  · exact List.mem_append_left _ new
  · exact h.within old

theorem adds_cons {names : List String} {name : String} (h : name ∈ names) :
    Adds names seen (name :: seen) :=
  ⟨List.subset_cons_self _ _, List.cons_subset.mpr
    ⟨List.mem_append_left _ h, List.subset_append_right _ _⟩⟩

section

variable {types : List TypeRef} (covers : Covers c u types)

include covers

theorem adds_of_arguments
    (inner : ∀ {t seen r}, t ∈ types → mangle c u depth t seen = some r →
      Adds (types.map TypeRef.display) seen r.2)
    (hargs : args ⊆ types) (written : seenAfter c u depth args seen = some later) :
    Adds (types.map TypeRef.display) seen later := by
  induction args generalizing seen with
  | nil =>
    cases written
    exact .refl _ _
  | cons arg rest ih =>
    obtain ⟨harg, hrest⟩ := List.cons_subset.mp hargs
    rw [seenAfter_cons] at written
    split at written
    · exact ih hrest written
    · obtain ⟨r, entered, written⟩ := Option.bind_eq_some_iff.mp written
      exact (inner (covers.replaced harg) entered).trans (ih hrest written)

theorem adds_of_mangle {r : String × List String} (ht : t ∈ types)
    (written : mangle c u depth t seen = some r) : Adds (types.map TypeRef.display) seen r.2 := by
  induction depth generalizing t seen r with
  | zero => cases written
  | succ depth ih =>
    have shown := congrArg (Option.map Prod.snd) written
    rw [map_mangle_succ] at shown
    exact (adds_cons (List.mem_map_of_mem ht)).trans
      (adds_of_arguments covers ih (fun arg harg => covers.effectiveArgs ht harg) shown)

/-- Only what has not been seen is entered, and all of it is among some types. -/
structure Entry.Fits (types : List TypeRef) (e : Entry) : Prop where
  type : e.type ∈ types
  new : e.type.display ∉ e.seen
  seen : e.seen ⊆ types.map TypeRef.display

/-- With each entry the occurrence that it was entered from has been seen. -/
theorem Enters.fits {e inner : Entry} (h : Enters c u e inner) (fits : e.Fits types) :
    inner.Fits types ∧ e.type.display :: e.seen ⊆ inner.seen := by
  cases h with
  | @argument t arg seen later before after depth cut written new =>
    have hargs : before ++ arg :: after ⊆ types := by
      rw [← cut]
      exact fun arg harg => covers.effectiveArgs fits.type harg
    obtain ⟨hbefore, hafter⟩ := List.append_subset.mp hargs
    have adds := adds_of_arguments covers (adds_of_mangle covers) hbefore written
    refine ⟨⟨covers.replaced (hafter List.mem_cons_self), new, fun name hname => ?_⟩, adds.kept⟩
    rcases List.mem_append.mp (adds.within hname) with among | before
    · exact among
    · rcases List.mem_cons.mp before with rfl | old
      · exact List.mem_map_of_mem fits.type
      · exact fits.seen old

/-- Ever less is left to be entered, so that no chain of entries goes on for ever. -/
theorem Entry.Fits.acc {e : Entry} (fits : e.Fits types) :
    Acc (fun inner outer => Enters c u outer inner) e := by
  generalize left : unwritten types e.seen = n
  induction n using Nat.strongRecOn generalizing e with
  | ind n ih =>
    refine ⟨e, fun inner enters => ?_⟩
    obtain ⟨fits', more⟩ := enters.fits covers fits
    have fewer := unwritten_lt fits.type fits.new
    have kept : unwritten types inner.seen ≤ unwritten types (e.type.display :: e.seen) :=
      unwritten_antitone more
    exact ih _ (by omega) fits' rfl

theorem Entry.Fits.of_reaches {start e : Entry} (fits : start.Fits types)
    (h : Relation.ReflTransGen (Enters c u) start e) : e.Fits types := by
  induction h with
  | refl => exact fits
  | tail _ enters ih => exact (enters.fits covers ih).1

end

/-! ### The names of a type -/

/-- The type, the bounds of all declared parameters, and all replacements. -/
def sourcesOf (c : Config) (u : Universe) (t : TypeRef) : List TypeRef :=
  t :: u.decls.flatMap (fun entry => entry.2.params.flatMap TypeParam.upperBounds)
    ++ c.customSchemas.filterMap fun s => TypeRef.parse? s.replacement

/-- The displays of all that stands in them. -/
def displaysOf (c : Config) (u : Universe) (t : TypeRef) : Finset String :=
  (((sourcesOf c u t).flatMap TypeRef.occurrences).map TypeRef.display).toFinset

theorem covers_sourcesOf (c : Config) (u : Universe) (t : TypeRef) :
    Covers c u ((sourcesOf c u t).flatMap TypeRef.occurrences) := by
  refine covers_of_roots (fun {name d p} hget hp => ?fallback) fun {s t'} hs parsed => ?replacement
  case fallback =>
    refine List.mem_append_left _ (List.mem_cons_of_mem _ ?_)
    exact List.mem_flatMap.mpr ⟨_, Assoc.mem_of_get? hget,
      List.mem_flatMap.mpr ⟨p, hp, p.fallback_mem_upperBounds⟩⟩
  case replacement =>
    exact List.mem_append_right _ (List.mem_filterMap.mpr ⟨s, hs, parsed⟩)

theorem fits_sourcesOf (c : Config) (u : Universe) (t : TypeRef) :
    Entry.Fits ((sourcesOf c u t).flatMap TypeRef.occurrences) ⟨t, []⟩ where
  type := List.mem_flatMap.mpr ⟨t, List.mem_cons_self, t.mem_occurrences_self⟩
  new := List.not_mem_nil
  seen := List.nil_subset _

/-- Writing a type comes to an end.  From some depth on every depth gives the same result; what the
depth is used up by are entries, of which no chain goes on for ever.  What has been seen grows with
each of them, within the displays of what stands in the type, the bounds and the replacements. -/
theorem mangle_terminates (c : Config) (u : Universe) (t : TypeRef) :
    (∃ result, ∀ depth, depthBound c u t ≤ depth → mangle c u depth t [] = some result) ∧
    Acc (fun inner outer => Enters c u outer inner) ⟨t, []⟩ ∧
    (∀ depth e, (mangle c u (depth + 1) e.type e.seen).isSome ↔
      ∀ inner, Enters c u e inner → (mangle c u depth inner.type inner.seen).isSome) ∧
    ∀ e, Relation.ReflTransGen (Enters c u) ⟨t, []⟩ e →
      insert e.type.display e.seen.toFinset ⊆ displaysOf c u t ∧
      ∀ inner, Enters c u e inner → e.seen.toFinset ⊂ inner.seen.toFinset := by
  have covers := covers_sourcesOf c u t
  have start := fits_sourcesOf c u t
  refine ⟨?_, start.acc covers, isSome_mangle_iff, fun e reached => ⟨?_, fun inner enters => ?_⟩⟩
  · obtain ⟨result, ends⟩ := Option.isSome_iff_exists.mp (isSome_mangle c u t)
    exact ⟨result, fun depth deep => continues_of_le deep _ _ _ ends⟩
  · have fits := start.of_reaches covers reached
    intro name hname
    rw [displaysOf, List.mem_toFinset]
    rcases Finset.mem_insert.mp hname with rfl | seen
    · exact List.mem_map_of_mem fits.type
    · exact fits.seen (List.mem_toFinset.mp seen)
  · have fits := start.of_reaches covers reached
    obtain ⟨-, more⟩ := enters.fits covers fits
    refine Finset.ssubset_iff_of_subset ?_ |>.mpr ⟨e.type.display, ?_, ?_⟩
    · exact fun name hname => List.mem_toFinset.mpr
        (more (List.mem_cons_of_mem _ (List.mem_toFinset.mp hname)))
    · exact List.mem_toFinset.mpr (more List.mem_cons_self)
    · exact fun seen => fits.new (List.mem_toFinset.mp seen)

/-- A type whose parameter is bounded by the type itself. -/
def selfBounded : Universe :=
  ⟨[("Node", { name := "Node", params := [⟨"T", [.generic "Node" [.placeholder "T" []]]⟩] })],
    .standard⟩

-- Without an argument the bound is written, and in it the parameter, which has none.
example : (mangle {} selfBounded 4 (.plain "Node") []).map Prod.fst = some "_Node_T__" := by
  decide

end Mangle

end Schemata
