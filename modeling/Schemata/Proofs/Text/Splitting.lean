import Schemata.Text.Split

/-!
# Pieces between separators

Cutting a text at a separator gives pieces without it that make up the text when the separator is
put between them again.
-/
namespace Schemata

namespace Text

/-- The text consists of these pieces, one more than it has separators. -/
structure IsSplit (separator : Char) (text : List Char) (pieces : List (List Char)) : Prop where
  joined : [separator].intercalate pieces = text
  free : ∀ piece ∈ pieces, separator ∉ piece
  length : pieces.length = text.count separator + 1

variable (separator : Char) (text : List Char)

theorem splitOn_separator (rest : List Char) :
    splitOn (· = separator) (separator :: rest) = [] :: splitOn (· = separator) rest := by
  simp [splitOn]

/-- Any other character belongs to the first piece. -/
theorem exists_splitOn_other {separator c : Char} (other : c ≠ separator) (rest : List Char) :
    ∃ piece others, splitOn (· = separator) rest = piece :: others ∧
      splitOn (· = separator) (c :: rest) = (c :: piece) :: others := by
  obtain ⟨piece, others, split⟩ := List.exists_cons_of_ne_nil (splitOn_ne_nil (· = separator) rest)
  exact ⟨piece, others, split, by simp [splitOn, other, split]⟩

theorem intercalate_splitOn : [separator].intercalate (splitOn (· = separator) text) = text := by
  induction text with
  | nil => rfl
  | cons c rest ih =>
    by_cases same : c = separator
    · obtain ⟨piece, others, split⟩ :=
        List.exists_cons_of_ne_nil (splitOn_ne_nil (· = separator) rest)
      rw [same, splitOn_separator]
      rw [split] at ih ⊢
      simpa [List.intercalate] using ih
    · obtain ⟨piece, others, split, longer⟩ := exists_splitOn_other same rest
      rw [split] at ih
      rw [longer, ← ih]
      cases others <;> simp [List.intercalate]

theorem not_mem_of_mem_splitOn {piece : List Char}
    (h : piece ∈ splitOn (· = separator) text) : separator ∉ piece := by
  induction text generalizing piece with
  | nil =>
    rw [List.mem_singleton.mp h]
    exact List.not_mem_nil
  | cons c rest ih =>
    by_cases same : c = separator
    · rw [same, splitOn_separator] at h
      rcases List.mem_cons.mp h with rfl | h
      · exact List.not_mem_nil
      · exact ih h
    · obtain ⟨first, others, split, longer⟩ := exists_splitOn_other same rest
      rw [split] at ih
      rw [longer] at h
      rcases List.mem_cons.mp h with rfl | h
      · exact fun mem => (List.mem_cons.mp mem).elim (fun here => same here.symm)
          (ih List.mem_cons_self)
      · exact ih (List.mem_cons_of_mem _ h)

theorem isSplit_splitOn : IsSplit separator text (splitOn (· = separator) text) where
  joined := intercalate_splitOn separator text
  free _ := not_mem_of_mem_splitOn separator text
  length := by
    rw [length_splitOn, List.count]
    rfl

end Text

end Schemata
