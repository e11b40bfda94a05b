/-!
# Cutting text

Cuts at separators, at the last dot, at line ends, and at a fixed beginning or end.
-/
namespace Schemata

namespace Text

/-- The pieces between separators, one more than there are separators. -/
def splitOn (separator : Char → Bool) : List Char → List (List Char)
  | [] => [[]]
  | c :: rest =>
    if separator c then [] :: splitOn separator rest
    else
      match splitOn separator rest with
      | piece :: others => (c :: piece) :: others
      | [] => [[c]]

@[simp] theorem splitOn_nil (separator : Char → Bool) : splitOn separator [] = [[]] := rfl

theorem splitOn_ne_nil (separator : Char → Bool) (text : List Char) :
    splitOn separator text ≠ [] := by
  cases text with
  | nil => simp
  | cons c rest =>
    simp only [splitOn]
    split
    · simp
    · split <;> simp

/-- There is one piece more than there are separators. -/
theorem length_splitOn (separator : Char → Bool) (text : List Char) :
    (splitOn separator text).length = text.countP separator + 1 := by
  induction text with
  | nil => rfl
  | cons c rest ih =>
    cases hs : splitOn separator rest with
    | nil => exact absurd hs (splitOn_ne_nil _ _)
    | cons piece others =>
      rw [hs] at ih
      by_cases h : separator c <;> simp_all [splitOn]

/-- What follows the last separator. -/
def afterLast (separator : Char → Bool) (text : List Char) : List Char :=
  (text.reverse.takeWhile (!separator ·)).reverse

/-- What precedes the last separator; empty if there is none. -/
def beforeLast (separator : Char → Bool) (text : List Char) : List Char :=
  ((text.reverse.dropWhile (!separator ·)).drop 1).reverse

/-- The lines of a text; an end of line at the end of the text opens no further line. -/
def lines (text : List Char) : List (List Char) :=
  let pieces := splitOn (· = '\n') text
  if pieces.getLast? = some [] then pieces.dropLast else pieces

/-- The rest after a fixed beginning. -/
def dropBeginning? : List Char → List Char → Option (List Char)
  | [], text => some text
  | _ :: _, [] => none
  | b :: beginning, c :: text => if b = c then dropBeginning? beginning text else none

/-- The rest before a fixed end. -/
def dropEnding? (ending text : List Char) : Option (List Char) :=
  (dropBeginning? ending.reverse text.reverse).map List.reverse

theorem dropBeginning?_eq_some_iff {beginning text rest : List Char} :
    dropBeginning? beginning text = some rest ↔ text = beginning ++ rest := by
  induction beginning generalizing text with
  | nil => simp [dropBeginning?, eq_comm]
  | cons b beginning ih =>
    cases text with
    | nil => simp [dropBeginning?]
    | cons c text =>
      by_cases h : b = c
      · simp [dropBeginning?, h, ih]
      · have h' : ¬ c = b := fun e => h e.symm
        simp [dropBeginning?, h, h']

/-- Equality up to the case of ASCII letters. -/
def sameIgnoringCase (a b : String) : Bool :=
  a.toList.map Char.toLower == b.toList.map Char.toLower

/-- Pieces with a separator between them. -/
def joined (separator : String) (pieces : List String) : String :=
  String.intercalate separator pieces

end Text

end Schemata
