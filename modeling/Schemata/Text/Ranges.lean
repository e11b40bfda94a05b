/-!
# Ranges of code points

A property of characters beyond ASCII is a list of ranges in increasing order.
-/
namespace Schemata

namespace Text

/-- The first range that does not end before `n` decides. -/
def inRanges : List (Nat × Nat) → Nat → Bool
  | [], _ => false
  | (first, last) :: rest, n => if last < n then inRanges rest n else first ≤ n

theorem exists_of_inRanges {ranges : List (Nat × Nat)} {n : Nat} (h : inRanges ranges n = true) :
    ∃ range ∈ ranges, range.1 ≤ n ∧ n ≤ range.2 := by
  induction ranges with
  | nil => simp [inRanges] at h
  | cons range rest ih =>
    by_cases hn : range.2 < n
    · simp only [inRanges, hn, if_true] at h
      obtain ⟨r, hr, hb⟩ := ih h
      exact ⟨r, List.mem_cons_of_mem _ hr, hb⟩
    · simp only [inRanges, hn, if_false, decide_eq_true_eq] at h
      exact ⟨range, List.mem_cons_self, h, Nat.le_of_not_lt hn⟩

end Text

end Schemata
