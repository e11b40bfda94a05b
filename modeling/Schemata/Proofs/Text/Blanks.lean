import Schemata.Text.Alphanumeric
import Schemata.Text.Blank

/-!
# Runs of blanks

A text is a run of blanks and what is left when it is trimmed.  No blank is a letter or a
digit.
-/
namespace Schemata

namespace Text

variable {gap text : List Char}

def AllBlank (gap : List Char) : Prop := ∀ c ∈ gap, isBlank c = true

theorem allBlank_nil : AllBlank [] := by simp [AllBlank]

theorem allBlank_space : AllBlank [' '] := by simp [AllBlank, isBlank]

theorem AllBlank.cons {c : Char} (hc : isBlank c = true) (h : AllBlank gap) :
    AllBlank (c :: gap) := by
  simp only [AllBlank, List.forall_mem_cons]
  exact ⟨hc, h⟩

theorem AllBlank.append {more : List Char} (h : AllBlank gap) (h' : AllBlank more) :
    AllBlank (gap ++ more) := by
  intro c hc
  rcases List.mem_append.mp hc with hc | hc
  · exact h c hc
  · exact h' c hc

theorem trimStart_append (h : AllBlank gap) : trimStart (gap ++ text) = trimStart text := by
  induction gap with
  | nil => rfl
  | cons c gap ih =>
    rw [List.cons_append, trimStart_cons_of_blank (h c List.mem_cons_self)]
    exact ih fun d hd => h d (List.mem_cons_of_mem c hd)

theorem exists_trimStart (text : List Char) :
    ∃ gap, AllBlank gap ∧ text = gap ++ trimStart text := by
  induction text with
  | nil => exact ⟨[], allBlank_nil, rfl⟩
  | cons c text ih =>
    cases hc : isBlank c with
    | false => exact ⟨[], allBlank_nil, by simp [trimStart_cons_of_not_blank hc]⟩
    | true =>
      obtain ⟨gap, blank, eq⟩ := ih
      exact ⟨c :: gap, blank.cons hc, by rw [trimStart_cons_of_blank hc, List.cons_append, ← eq]⟩

theorem trimStart_trimStart (text : List Char) :
    trimStart (trimStart text) = trimStart text := by
  obtain ⟨gap, blank, eq⟩ := exists_trimStart text
  have same : trimStart (gap ++ trimStart text) = trimStart (trimStart text) :=
    trimStart_append blank
  rw [← eq] at same
  exact same.symm

theorem trimStart_of_allBlank (h : AllBlank text) : trimStart text = [] := by
  have trimmed : trimStart (text ++ []) = [] := trimStart_append h
  rw [List.append_nil] at trimmed
  exact trimmed

theorem trimEnd_prefix (text : List Char) : trimEnd text <+: text := by
  rw [trimEnd, ← List.reverse_suffix, List.reverse_reverse]
  exact List.dropWhile_suffix _

theorem trimEnd_trimEnd (text : List Char) : trimEnd (trimEnd text) = trimEnd text := by
  have again := trimStart_trimStart text.reverse
  unfold trimStart at again
  rw [trimEnd, trimEnd, List.reverse_reverse, again]

/-- A text that begins with no blank keeps its beginning. -/
theorem trimStart_trimEnd (text : List Char) (begun : trimStart text = text) :
    trimStart (trimEnd text) = trimEnd text := by
  cases cut : trimEnd text with
  | nil => rfl
  | cons c rest =>
    obtain ⟨after, whole⟩ := cut ▸ trimEnd_prefix text
    cases blank : isBlank c with
    | false => exact trimStart_cons_of_not_blank blank
    | true =>
      rw [← whole, List.cons_append, trimStart_cons_of_blank blank] at begun
      have shorter := (List.dropWhile_suffix (l := rest ++ after) isBlank).length_le
      rw [← trimStart, begun, List.length_cons] at shorter
      exact absurd shorter (Nat.not_succ_le_self _)

theorem trim_trim (text : List Char) : trim (trim text) = trim text := by
  rw [trim, trim, trimStart_trimEnd _ (trimStart_trimStart text), trimEnd_trimEnd]

theorem trimmed_trimmed (text : String) : trimmed (trimmed text) = trimmed text := by
  rw [trimmed, trimmed, String.toList_ofList, trim_trim]

theorem trimStart_of_no_blank (h : ∀ c ∈ text, isBlank c = false) : trimStart text = text := by
  cases text with
  | nil => rfl
  | cons c rest => exact trimStart_cons_of_not_blank (h c List.mem_cons_self)

/-- Only blanks are trimmed. -/
theorem trim_of_no_blank (h : ∀ c ∈ text, isBlank c = false) : trim text = text := by
  have backward : trimStart text.reverse = text.reverse :=
    trimStart_of_no_blank fun c hc => h c (List.mem_reverse.mp hc)
  rw [trim, trimStart_of_no_blank h, trimEnd, ← trimStart, backward, List.reverse_reverse]

/-- The codes of the blank characters. -/
def blankCodes : List Nat :=
  List.range' 0x09 5 ++ [0x20, 0x85, 0xa0, 0x1680] ++ List.range' 0x2000 11
    ++ [0x2028, 0x2029, 0x202f, 0x205f, 0x3000]

theorem mem_blankCodes {c : Char} (h : isBlank c = true) : c.toNat ∈ blankCodes := by
  simp [isBlank] at h
  simp [blankCodes, List.mem_range'_1]
  omega

theorem not_inRanges_of_mem_blankCodes :
    ∀ n ∈ blankCodes, inRanges alphanumericRanges n = false := by
  decide +kernel

theorem isAlphanumeric_of_isBlank {c : Char} (h : isBlank c = true) :
    isAlphanumeric c = false := by
  by_cases ascii : c.toNat < 128
  · have ranges : c.isAlphanum = (decide (c.val ≥ 'A'.val ∧ c.val ≤ 'Z'.val)
        || decide (c.val ≥ 'a'.val) && decide (c.val ≤ 'z'.val)
        || decide (c.val ≥ '0'.val) && decide (c.val ≤ '9'.val)) := rfl
    rw [isAlphanumeric_of_isAlphanum ascii, ranges]
    simp [isBlank] at h
    simp [UInt32.le_iff_toNat_le]
    omega
  · simp only [isAlphanumeric, if_neg ascii]
    exact not_inRanges_of_mem_blankCodes _ (mem_blankCodes h)

end Text

end Schemata
