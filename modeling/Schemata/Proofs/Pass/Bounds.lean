import Mathlib.Algebra.Order.Field.Basic
import Mathlib.Algebra.Order.Field.Rat
import Mathlib.Data.List.Induction
import Schemata.Pass.Constraints
import Schemata.Proofs.Assoc

/-!
# Bounds

Constraints bound numbers from two sides, and counts of items and of characters besides.  The last
bound of a side gives the limit, and if any bound excludes its limit then so does the facet.
Hence the facets say what all constraints say together only if on each side the last bound is the
tightest, and the same goes for counts.
-/
namespace Schemata

/-- The rational number that a finite number is. -/
def Double.value? : Double → Option ℚ
  | .finite negative significand exponent =>
    let size := magnitude significand exponent
    some (if negative then -(size.1 / size.2) else size.1 / size.2)
  | _ => none

theorem Double.isSome_value? (x : Double) : x.value?.isSome = x.isFinite := by
  cases x <;> rfl

/-! ### Sides -/

/-- The two sides on which numbers are bounded. -/
inductive Side where
  | lower
  | upper
  deriving DecidableEq, Repr

namespace Side

variable {side other : Side} {x y : ℚ}

instance {p : Side → Prop} [DecidablePred p] : Decidable (∀ side, p side) :=
  decidable_of_iff (p .lower ∧ p .upper)
    ⟨fun h side => match side with | .lower => h.1 | .upper => h.2, fun h => ⟨h _, h _⟩⟩

/-- A number as it is seen from a side: what is farther inside is greater. -/
def toward : Side → ℚ → ℚ
  | .lower, x => x
  | .upper, x => -x

@[simp] theorem toward_toward (side : Side) (x : ℚ) : side.toward (side.toward x) = x := by
  cases side <;> simp [toward]

theorem toward_injective (side : Side) : side.toward.Injective := fun x y same => by
  rw [← side.toward_toward x, same, side.toward_toward]

theorem toward_le_of_ne (different : side ≠ other) (h : side.toward x ≤ side.toward y) :
    other.toward y ≤ other.toward x := by
  cases side <;> cases other <;> simp_all [toward]

end Side

/-- A limit, which may be excluded. -/
structure Bound where
  limit : ℚ
  exclusive : Bool
  deriving DecidableEq, Repr

namespace Bound

variable {side : Side} {b last : Bound} {bs : List Bound} {x y : ℚ}

/-- The numbers on the inner side of a bound. -/
def admitted (b : Bound) : Side → Set ℚ
  | .lower => if b.exclusive then Set.Ioi b.limit else Set.Ici b.limit
  | .upper => if b.exclusive then Set.Iio b.limit else Set.Iic b.limit

theorem mem_admitted : x ∈ b.admitted side ↔
    side.toward b.limit ≤ side.toward x ∧ (b.exclusive = true → b.limit ≠ x) := by
  cases side <;> cases h : b.exclusive <;>
    simp [admitted, h, Side.toward, lt_iff_le_and_ne, ne_comm]

/-- The numbers that all bounds of a side admit. -/
def common (side : Side) (bs : List Bound) : Set ℚ := {x | ∀ b ∈ bs, x ∈ b.admitted side}

theorem mem_common_of_le (h : x ∈ common side bs) (inside : side.toward x ≤ side.toward y) :
    y ∈ common side bs := by
  intro b hb
  obtain ⟨above, missed⟩ := mem_admitted.mp (h b hb)
  refine mem_admitted.mpr ⟨above.trans inside, ?_⟩
  rintro exclusive rfl
  exact missed exclusive (side.toward_injective (le_antisymm above inside))

/-- The numbers that all bounds of both sides admit. -/
def between (bs : Side → List Bound) : Set ℚ := {x | ∀ side, x ∈ common side (bs side)}

theorem common_subset_of_between_subset {bs bs' : Side → List Bound}
    (sub : between bs ⊆ between bs') (h : x ∈ between bs) (side : Side) :
    common side (bs side) ⊆ common side (bs' side) := by
  intro y hy
  rcases le_total (side.toward x) (side.toward y) with inside | outside
  · exact mem_common_of_le (sub h side) inside
  -- What lies farther out than an admitted number is farther inside from the other side.
  · refine sub (fun other => ?_) side
    by_cases same : side = other
    · exact same ▸ hy
    · exact mem_common_of_le (h other) (Side.toward_le_of_ne same outside)

/-- Bounds of both sides admit the same numbers if those of each side do, or if none is admitted
at all. -/
theorem between_eq_iff {bs bs' : Side → List Bound} : between bs = between bs' ↔
    (∀ side, common side (bs side) = common side (bs' side)) ∨
      between bs = ∅ ∧ between bs' = ∅ := by
  constructor
  · intro same
    rcases (between bs).eq_empty_or_nonempty with empty | ⟨x, hx⟩
    · exact .inr ⟨empty, same ▸ empty⟩
    · exact .inl fun side => (common_subset_of_between_subset same.subset hx side).antisymm
        (common_subset_of_between_subset same.superset (same ▸ hx) side)
  · rintro (same | ⟨empty, empty'⟩)
    · simp only [between, same]
    · rw [empty, empty']

/-- The limit of the last bound, which is excluded if any bound excludes its own. -/
def latest (bs : List Bound) : Option Bound :=
  bs.getLast?.map fun last => ⟨last.limit, bs.any exclusive⟩

/-- The last bound is as tight as any, and its limit is excluded by some bound if any bound
excludes a limit. -/
structure EndsTightest (side : Side) (bs : List Bound) : Prop where
  tight : ∀ last ∈ bs.getLast?, ∀ b ∈ bs, side.toward b.limit ≤ side.toward last.limit
  excluded : ∀ last ∈ bs.getLast?, bs.any exclusive = true → ⟨last.limit, true⟩ ∈ bs

theorem mem_common_latest (ended : bs.getLast? = some last) :
    x ∈ common side (latest bs).toList ↔
      side.toward last.limit ≤ side.toward x ∧ (bs.any exclusive = true → last.limit ≠ x) := by
  simp [common, latest, ended, mem_admitted]

theorem EndsTightest.common_latest (h : EndsTightest side bs) :
    common side (latest bs).toList = common side bs := by
  cases ended : bs.getLast? with
  | none =>
    obtain rfl := List.getLast?_eq_none_iff.mp ended
    rfl
  | some last =>
    ext x
    rw [mem_common_latest ended]
    constructor
    · rintro ⟨above, missed⟩ b hb
      have below := h.tight last ended b hb
      refine mem_admitted.mpr ⟨below.trans above, ?_⟩
      rintro exclusive rfl
      exact missed (List.any_eq_true.mpr ⟨b, hb, exclusive⟩)
        (side.toward_injective (le_antisymm above below))
    · intro inside
      refine ⟨(mem_admitted.mp (inside last (List.mem_of_getLast? ended))).1, fun any => ?_⟩
      exact (mem_admitted.mp (inside _ (h.excluded last ended any))).2 rfl

/-- A looser last limit would admit a number between the two. -/
theorem toward_le_of_common_latest (same : common side (latest bs).toList = common side bs)
    (ended : bs.getLast? = some last) (hb : b ∈ bs) :
    side.toward b.limit ≤ side.toward last.limit := by
  by_contra looser
  obtain ⟨y, above, below⟩ := exists_between (not_le.mp looser)
  have inside : side.toward y ∈ common side (latest bs).toList := by
    refine (mem_common_latest ended).mpr ⟨by simpa using above.le, fun _ same => ?_⟩
    rw [same, side.toward_toward] at above
    exact above.false
  rw [same] at inside
  have above_b := (mem_admitted.mp (inside b hb)).1
  rw [side.toward_toward] at above_b
  exact above_b.not_gt below

theorem endsTightest_of_common_latest
    (same : common side (latest bs).toList = common side bs) : EndsTightest side bs where
  tight _ ended _ hb := toward_le_of_common_latest same ended hb
  excluded last ended any := by
    -- Some bound misses the last limit, and as none is tighter it excludes that very limit.
    have outside : last.limit ∉ common side bs := by
      rw [← same, mem_common_latest ended]
      exact fun inside => inside.2 any rfl
    simp only [common, Set.mem_ofPred_eq, mem_admitted, not_forall, not_and] at outside
    obtain ⟨b, hb, missed⟩ := outside
    obtain ⟨exclusive, limit⟩ := missed (toward_le_of_common_latest same ended hb)
    rw [not_not] at limit
    rwa [← limit, ← exclusive]

theorem common_latest_eq_iff :
    common side (latest bs).toList = common side bs ↔ EndsTightest side bs :=
  ⟨endsTightest_of_common_latest, EndsTightest.common_latest⟩

end Bound

/-! ### What one constraint demands -/

/-- What is counted: the items of a container or the characters of a text. -/
inductive Counted where
  | items
  | characters
  deriving DecidableEq, Repr

instance {p : Counted → Prop} [DecidablePred p] : Decidable (∀ counted, p counted) :=
  decidable_of_iff (p .items ∧ p .characters)
    ⟨fun h counted => match counted with | .items => h.1 | .characters => h.2,
      fun h => ⟨h _, h _⟩⟩

def ConstraintTarget.counted : ConstraintTarget → Counted
  | .container => .items
  | .value => .characters

namespace DirectiveKind

/-- The limit that a constraint gives on a side. -/
def limit? (kind : DirectiveKind) (d : Directive) : Side → Option Double
  | .lower =>
    match kind with
    | .min | .decimalMin => d.number? "value"
    | .positive | .positiveOrZero => some (.zero false)
    | _ => none
  | .upper =>
    match kind with
    | .max | .decimalMax => d.number? "value"
    | .negative | .negativeOrZero => some (.zero false)
    | _ => none

/-- Whether the limit of a constraint is excluded. -/
def isExclusive (kind : DirectiveKind) (d : Directive) : Bool :=
  match kind with
  | .positive | .negative => true
  | .min | .decimalMin | .max | .decimalMax => d.flag? "inclusive" = some false
  | _ => false

/-- The bound that a constraint gives on a side. -/
def bound? (kind : DirectiveKind) (d : Directive) (side : Side) : Option Bound :=
  ((kind.limit? d side).bind Double.value?).map (⟨·, kind.isExclusive d⟩)

/-- The least count that a constraint demands.  A text that is not blank has characters. -/
def least? (kind : DirectiveKind) (d : Directive) (target : ConstraintTarget) (counted : Counted) :
    Option Nat :=
  match kind with
  | .notEmpty => if counted = target.counted then some 1 else none
  | .notBlank => if counted = .characters then some 1 else none
  | .size => if counted = target.counted then d.count? "min" else none
  | _ => none

/-- The greatest count that a constraint allows. -/
def most? (kind : DirectiveKind) (d : Directive) (target : ConstraintTarget) (counted : Counted) :
    Option Nat :=
  match kind with
  | .size => if counted = target.counted then d.count? "max" else none
  | _ => none

end DirectiveKind

namespace Facets

def limit? (f : Facets) : Side → Option Double
  | .lower => f.minimum
  | .upper => f.maximum

def isExclusive (f : Facets) : Side → Bool
  | .lower => f.exclusiveMinimum == some true
  | .upper => f.exclusiveMaximum == some true

/-- The bound that the facets give on a side. -/
def bound? (f : Facets) (side : Side) : Option Bound :=
  ((f.limit? side).bind Double.value?).map (⟨·, f.isExclusive side⟩)

/-- The numbers that the facets admit. -/
def admitted (f : Facets) : Set ℚ := Bound.between fun side => (f.bound? side).toList

def least? (f : Facets) : Counted → Option Nat
  | .items => f.minItems
  | .characters => f.minLength

def most? (f : Facets) : Counted → Option Nat
  | .items => f.maxItems
  | .characters => f.maxLength

section

variable (target : ConstraintTarget) (f : Facets) (kind : DirectiveKind) (d : Directive)

theorem limit?_constrain (side : Side) :
    (f.constrain target kind d).limit? side = (kind.limit? d side).or (f.limit? side) := by
  cases kind with
  | min | decimalMin =>
    rw [constrain, withLower_eq]
    cases side <;> rfl
  | max | decimalMax =>
    rw [constrain, withUpper_eq]
    cases side <;> rfl
  | _ => cases target <;> cases side <;> rfl

theorem isExclusive_constrain (side : Side) : (f.constrain target kind d).isExclusive side =
    ((kind.limit? d side).isSome && kind.isExclusive d || f.isExclusive side) := by
  cases kind with
  | min | decimalMin =>
    rw [constrain, withLower_eq]
    cases side with
    | lower =>
      simp only [isExclusive, DirectiveKind.limit?, DirectiveKind.isExclusive]
      split <;> simp_all
    | upper => rfl
  | max | decimalMax =>
    rw [constrain, withUpper_eq]
    cases side with
    | lower => rfl
    | upper =>
      simp only [isExclusive, DirectiveKind.limit?, DirectiveKind.isExclusive]
      split <;> simp_all
  | _ => cases target <;> cases side <;> rfl

theorem least?_constrain (counted : Counted) : (f.constrain target kind d).least? counted =
    (kind.least? d target counted).or (f.least? counted) := by
  cases kind with
  | min | decimalMin =>
    rw [constrain, withLower_eq]
    cases counted <;> rfl
  | max | decimalMax =>
    rw [constrain, withUpper_eq]
    cases counted <;> rfl
  | _ => cases target <;> cases counted <;> rfl

theorem most?_constrain (counted : Counted) : (f.constrain target kind d).most? counted =
    (kind.most? d target counted).or (f.most? counted) := by
  cases kind with
  | min | decimalMin =>
    rw [constrain, withLower_eq]
    cases counted <;> rfl
  | max | decimalMax =>
    rw [constrain, withUpper_eq]
    cases counted <;> rfl
  | _ => cases target <;> cases counted <;> rfl

end

theorem constrain_of_isConstraint_eq_false {kind : DirectiveKind} (h : kind.isConstraint = false)
    (target : ConstraintTarget) (f : Facets) (d : Directive) : f.constrain target kind d = f := by
  cases kind <;> first | rfl | cases h

end Facets

/-! ### What all constraints demand -/

namespace Directives

/-- The bounds on a side, in the order of attachment. -/
def bounds (ds : Directives) (side : Side) : List Bound :=
  ds.filterMap fun entry => entry.1.bound? entry.2 side

theorem bounds_concat (ds : Directives) (entry : DirectiveKind × Directive) (side : Side) :
    bounds (ds ++ [entry]) side = ds.bounds side ++ (entry.1.bound? entry.2 side).toList := by
  simp only [bounds, List.filterMap_append, List.filterMap_cons, List.filterMap_nil]
  cases entry.1.bound? entry.2 side <;> rfl

/-- The numbers that every constraint admits. -/
def admitted (ds : Directives) : Set ℚ := Bound.between ds.bounds

/-- The least counts that are demanded, in the order of attachment. -/
def leasts (ds : Directives) (target : ConstraintTarget) (counted : Counted) : List Nat :=
  ds.filterMap fun entry => entry.1.least? entry.2 target counted

/-- The greatest counts that are allowed. -/
def mosts (ds : Directives) (target : ConstraintTarget) (counted : Counted) : List Nat :=
  ds.filterMap fun entry => entry.1.most? entry.2 target counted

/-- Whether all limits are numbers of a kind. -/
def LimitsAre (ds : Directives) (kind : Double → Bool) : Prop :=
  ∀ entry ∈ ds, ∀ side, (entry.1.limit? entry.2 side).all kind = true

instance (ds : Directives) (kind : Double → Bool) : Decidable (ds.LimitsAre kind) :=
  inferInstanceAs (Decidable (∀ entry ∈ ds, ∀ side, (entry.1.limit? entry.2 side).all kind = true))

/-- The tightest constraints are attached last, on either side and for the least counts; the order
of bounds does not matter where no number meets any of them anyway. -/
structure InOrder (ds : Directives) (target : ConstraintTarget) : Prop where
  numbers : (∀ side, Bound.EndsTightest side (ds.bounds side)) ∨
    (Bound.between fun side => (Bound.latest (ds.bounds side)).toList) = ∅ ∧ ds.admitted = ∅
  counts : ∀ counted, ∀ last ∈ (ds.leasts target counted).getLast?,
    ∀ least ∈ ds.leasts target counted, least ≤ last

end Directives

/-- The facets say what the constraints say together. -/
structure Facets.Conjoins (f : Facets) (target : ConstraintTarget) (ds : Directives) : Prop where
  numbers : f.admitted = ds.admitted
  least : ∀ counted, f.least? counted = (ds.leasts target counted).max?
  most : ∀ counted, f.most? counted = (ds.mosts target counted).min?

/-! ### What becomes of all constraints -/

namespace Facets

variable {target : ConstraintTarget} {ds : Directives}

/-- The facets with the constraints among some directives, in their order. -/
def constrainAll (f : Facets) (target : ConstraintTarget) (ds : Directives) : Facets :=
  ds.foldl (fun f entry => f.constrain target entry.1 entry.2) f

theorem constrainAll_concat (f : Facets) (target : ConstraintTarget) (ds : Directives)
    (entry : DirectiveKind × Directive) : f.constrainAll target (ds ++ [entry]) =
      (f.constrainAll target ds).constrain target entry.1 entry.2 := by
  rw [constrainAll, List.foldl_append]
  rfl

/-- What each constraint writes in turn, the last one leaves behind. -/
theorem read_constrainAll {α : Type} (read : Facets → Option α)
    (write : DirectiveKind → Directive → Option α)
    (step : ∀ f kind d, read (f.constrain target kind d) = (write kind d).or (read f))
    (ds : Directives) (f : Facets) : read (f.constrainAll target ds) =
      ((ds.filterMap fun entry => write entry.1 entry.2).getLast?).or (read f) := by
  induction ds using List.reverseRecOn with
  | nil => rfl
  | append_singleton ds entry ih =>
    rw [constrainAll_concat, step, ih, List.filterMap_append, List.getLast?_append, Option.or_assoc,
      List.filterMap_cons]
    cases write entry.1 entry.2 <;> rfl

theorem bound?_constrain (target : ConstraintTarget) (f : Facets) {kind : DirectiveKind}
    {d : Directive} {side : Side}
    (finite : (kind.limit? d side).all Double.isFinite = true) :
    (f.constrain target kind d).bound? side =
        ((kind.bound? d side).map fun b => ⟨b.limit, b.exclusive || f.isExclusive side⟩).or
          (f.bound? side) ∧
      (f.constrain target kind d).isExclusive side =
        ((kind.bound? d side).any Bound.exclusive || f.isExclusive side) := by
  unfold bound? DirectiveKind.bound?
  rw [limit?_constrain, isExclusive_constrain]
  cases limit : kind.limit? d side with
  | none => simp
  | some x =>
    rw [limit, Option.all_some, ← Double.isSome_value?] at finite
    obtain ⟨value, found⟩ := Option.isSome_iff_exists.mp finite
    simp [found]

/-- The limits are those of the last bounds, and exclusions add up. -/
theorem bound?_constrainAll (finite : ds.LimitsAre Double.isFinite) (side : Side) :
    (constrainAll {} target ds).bound? side = Bound.latest (ds.bounds side) ∧
      (constrainAll {} target ds).isExclusive side = (ds.bounds side).any Bound.exclusive := by
  induction ds using List.reverseRecOn with
  | nil => cases side <;> exact ⟨rfl, rfl⟩
  | append_singleton ds entry ih =>
    obtain ⟨bound, exclusive⟩ := ih fun entry' mem => finite entry' (List.mem_append_left _ mem)
    obtain ⟨bound', exclusive'⟩ := bound?_constrain target (constrainAll {} target ds)
      (finite entry (by simp) side)
    rw [constrainAll_concat, bound', exclusive', bound, exclusive, Directives.bounds_concat]
    cases entry.1.bound? entry.2 side with
    | none => simp
    | some b => simp [Bound.latest, Bool.or_comm]

theorem least?_constrainAll (f : Facets) (target : ConstraintTarget) (ds : Directives)
    (counted : Counted) : (f.constrainAll target ds).least? counted =
      (ds.leasts target counted).getLast?.or (f.least? counted) :=
  read_constrainAll (least? · counted) (DirectiveKind.least? · · target counted)
    (fun f kind d => least?_constrain target f kind d counted) ds f

theorem most?_constrainAll (f : Facets) (target : ConstraintTarget) (ds : Directives)
    (counted : Counted) : (f.constrainAll target ds).most? counted =
      (ds.mosts target counted).getLast?.or (f.most? counted) :=
  read_constrainAll (most? · counted) (DirectiveKind.most? · · target counted)
    (fun f kind d => most?_constrain target f kind d counted) ds f

theorem admitted_constrainAll (finite : ds.LimitsAre Double.isFinite) :
    (constrainAll {} target ds).admitted =
      Bound.between fun side => (Bound.latest (ds.bounds side)).toList := by
  simp only [admitted, (bound?_constrainAll finite _).1]

end Facets

/-- Directives that are no constraints can be passed over. -/
theorem Schema.facets_constrained (s : Schema) (target : ConstraintTarget) (ds : Directives) :
    (s.constrained target ds).facets = s.facets.constrainAll target ds := by
  simp only [constrained, Directives.constraints, List.foldl_filter, Facets.constrainAll]
  congr
  funext f entry
  split
  · rfl
  · rename_i other
    exact (Facets.constrain_of_isConstraint_eq_false (by simpa using other) target f entry.2).symm

/-! ### Conjunction -/

theorem getLast?_eq_max?_iff {l : List Nat} :
    l.getLast? = l.max? ↔ ∀ last ∈ l.getLast?, ∀ n ∈ l, n ≤ last := by
  cases ended : l.getLast? with
  | none =>
    obtain rfl := List.getLast?_eq_none_iff.mp ended
    simp
  | some last =>
    rw [eq_comm, List.max?_eq_some_iff]
    simp [List.mem_of_getLast? ended]

/-- Only one directive limits a count from above. -/
theorem Directives.getLast?_mosts {ds : Directives} (distinct : ds.keys.Nodup)
    (target : ConstraintTarget) (counted : Counted) :
    (ds.mosts target counted).getLast? = (ds.mosts target counted).min? := by
  have only (entry : DirectiveKind × Directive) (other : entry.1 ≠ .size) :
      entry.1.most? entry.2 target counted = none := by
    unfold DirectiveKind.most?
    split
    · contradiction
    · rfl
  rw [mosts, Assoc.filterMap_of_key distinct only]
  cases (ds.get? .size).bind _ <;> rfl

namespace Schema

variable {target : ConstraintTarget} {ds : Directives} {s : Schema}

/-- Constraints are conjoined exactly if the tightest ones are attached last. -/
theorem conjoins_iff (distinct : ds.keys.Nodup) (finite : ds.LimitsAre Double.isFinite)
    (plain : s.facets = {}) :
    (s.constrained target ds).facets.Conjoins target ds ↔ ds.InOrder target := by
  rw [facets_constrained, plain]
  have numbers : (Facets.constrainAll {} target ds).admitted = ds.admitted ↔
      (∀ side, Bound.EndsTightest side (ds.bounds side)) ∨
        (Bound.between fun side => (Bound.latest (ds.bounds side)).toList) = ∅ ∧
          ds.admitted = ∅ := by
    rw [Facets.admitted_constrainAll finite, Directives.admitted, Bound.between_eq_iff]
    simp only [Bound.common_latest_eq_iff]
  have least (counted : Counted) : (Facets.constrainAll {} target ds).least? counted =
      (ds.leasts target counted).max? ↔ ∀ last ∈ (ds.leasts target counted).getLast?,
        ∀ least ∈ ds.leasts target counted, least ≤ last := by
    have nothing : Facets.least? {} counted = none := by cases counted <;> rfl
    rw [Facets.least?_constrainAll, nothing, Option.or_none, getLast?_eq_max?_iff]
  have most (counted : Counted) : (Facets.constrainAll {} target ds).most? counted =
      (ds.mosts target counted).min? := by
    have nothing : Facets.most? {} counted = none := by cases counted <;> rfl
    rw [Facets.most?_constrainAll, nothing, Option.or_none,
      Directives.getLast?_mosts distinct target counted]
  constructor
  · intro h
    exact ⟨numbers.mp h.numbers, fun counted => (least counted).mp (h.least counted)⟩
  · intro h
    exact ⟨numbers.mpr h.numbers, fun counted => (least counted).mpr (h.counts counted), most⟩

/-- What is attached later narrows what was attached before: text of one to ten characters, and
a number above zero and below 99.5. -/
theorem conjoins_iff_narrowing :
    let ds : Directives := [(.notEmpty, []), (.size, [("max", .num (.int 10))]), (.positive, []),
      (.decimalMax, [("value", .str "99.5"), ("inclusive", .bool false)])]
    ds.keys.Nodup ∧ ds.LimitsAre Double.isFinite ∧ ({} : Schema).facets = {} ∧
      ds.InOrder .value ∧ (({} : Schema).constrained .value ds).facets.Conjoins .value ds := by
  intro ds
  have distinct : ds.keys.Nodup := by decide
  have finite : ds.LimitsAre Double.isFinite := by decide +kernel
  have tight (side : Side) : Bound.EndsTightest side (ds.bounds side) := by
    cases side <;> exact ⟨by decide +kernel, by decide +kernel⟩
  have ordered : ds.InOrder .value := ⟨.inl tight, by decide +kernel⟩
  exact ⟨distinct, finite, rfl, ordered, (conjoins_iff distinct finite rfl).mpr ordered⟩

/-- Constraints whose limits are integers are conjoined in any order. -/
def ConjoinsAlways (target : ConstraintTarget) : Prop :=
  ∀ ds : Directives, ds.keys.Nodup → ds.LimitsAre (·.toInt?.isSome) →
    ∀ s : Schema, s.facets = {} → (s.constrained target ds).facets.Conjoins target ds

/-- A positive number of at least 5 may be 1. -/
theorem not_conjoinsAlways_positive : ¬ ConjoinsAlways .value := by
  intro conjoins
  let ds : Directives := [(.min, [("value", .num (.int 5))]), (.positive, [])]
  have same := (conjoins ds (by decide) (by decide +kernel) {} rfl).numbers
  rw [facets_constrained, Facets.admitted_constrainAll (by decide +kernel)] at same
  have lower : Bound.latest (ds.bounds .lower) = some ⟨0, true⟩ := by decide +kernel
  have upper : Bound.latest (ds.bounds .upper) = none := by decide +kernel
  have one : (1 : ℚ) ∈ ds.admitted := by
    rw [← same]
    intro side
    cases side
    · simp [lower, Bound.common, Bound.admitted]
    · simp [upper, Bound.common]
  have five : ⟨5, false⟩ ∈ ds.bounds .lower := by decide +kernel
  exact absurd (Bound.mem_admitted.mp (one .lower _ five)).1 (by decide +kernel)

end Schema

end Schemata
