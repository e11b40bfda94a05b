/-!
# Sums over lists

Sizes and bounds are sums of natural numbers over the elements of a list.
-/
namespace Schemata

/-- The sum of a weight over a list. -/
def sumOf (weight : α → Nat) (items : List α) : Nat :=
  items.foldr (fun item sum => weight item + sum) 0

@[simp] theorem sumOf_nil (weight : α → Nat) : sumOf weight [] = 0 := rfl

@[simp] theorem sumOf_cons (weight : α → Nat) (item : α) (rest : List α) :
    sumOf weight (item :: rest) = weight item + sumOf weight rest := rfl

theorem length_flatMap_eq_sumOf (f : α → List β) (items : List α) :
    (items.flatMap f).length = sumOf (fun item => (f item).length) items := by
  induction items with
  | nil => rfl
  | cons item items ih => rw [List.flatMap_cons, List.length_append, ih, sumOf_cons]

theorem sumOf_le_sumOf {weight weight' : α → Nat} {items : List α}
    (h : ∀ item ∈ items, weight item ≤ weight' item) :
    sumOf weight items ≤ sumOf weight' items := by
  induction items with
  | nil => exact Nat.le_refl _
  | cons item items ih =>
    rw [sumOf_cons, sumOf_cons]
    exact Nat.add_le_add (h item List.mem_cons_self)
      (ih fun item hitem => h item (List.mem_cons_of_mem _ hitem))

theorem sumOf_congr {weight weight' : α → Nat} {items : List α}
    (h : ∀ item ∈ items, weight item = weight' item) :
    sumOf weight items = sumOf weight' items :=
  Nat.le_antisymm (sumOf_le_sumOf fun item hitem => Nat.le_of_eq (h item hitem))
    (sumOf_le_sumOf fun item hitem => Nat.le_of_eq (h item hitem).symm)

theorem sumOf_append (weight : α → Nat) (items rest : List α) :
    sumOf weight (items ++ rest) = sumOf weight items + sumOf weight rest := by
  induction items with
  | nil => simp
  | cons item items ih => simp [ih, Nat.add_assoc]

theorem sumOf_reverse (weight : α → Nat) (items : List α) :
    sumOf weight items.reverse = sumOf weight items := by
  induction items with
  | nil => rfl
  | cons item items ih =>
    rw [List.reverse_cons, sumOf_append, ih, sumOf_cons, sumOf_cons, sumOf_nil, Nat.add_zero,
      Nat.add_comm]

theorem sumOf_flatMap (weight : β → Nat) (f : α → List β) (items : List α) :
    sumOf weight (items.flatMap f) = sumOf (fun item => sumOf weight (f item)) items := by
  induction items with
  | nil => rfl
  | cons item items ih => rw [List.flatMap_cons, sumOf_append, ih, sumOf_cons]

theorem le_sumOf_of_mem {weight : α → Nat} {item : α} {items : List α} (h : item ∈ items) :
    weight item ≤ sumOf weight items := by
  induction items with
  | nil => simp at h
  | cons other rest ih =>
    rcases List.mem_cons.mp h with rfl | h
    · simp
    · exact Nat.le_trans (ih h) (by simp)

/-- Weights that are nowhere greater, and smaller by some amount in one place. -/
theorem sumOf_add_le_sumOf {weight weight' : α → Nat} {items : List α} {item : α} {amount : Nat}
    (h : ∀ other ∈ items, weight other ≤ weight' other) (hmem : item ∈ items)
    (less : weight item + amount ≤ weight' item) :
    sumOf weight items + amount ≤ sumOf weight' items := by
  induction items with
  | nil => cases hmem
  | cons first rest ih =>
    have below := h first List.mem_cons_self
    have others (other : α) (hother : other ∈ rest) := h other (List.mem_cons_of_mem _ hother)
    rw [sumOf_cons, sumOf_cons]
    rcases List.mem_cons.mp hmem with rfl | later
    · have rest := sumOf_le_sumOf others
      omega
    · have rest := ih others later
      omega

theorem sumOf_le_length_mul {weight : α → Nat} {items : List α} {bound : Nat}
    (h : ∀ item ∈ items, weight item ≤ bound) : sumOf weight items ≤ items.length * bound := by
  induction items with
  | nil => exact Nat.zero_le _
  | cons item items ih =>
    rw [sumOf_cons, List.length_cons, Nat.succ_mul, Nat.add_comm]
    exact Nat.add_le_add (ih fun other hother => h other (List.mem_cons_of_mem _ hother))
      (h item List.mem_cons_self)

end Schemata
