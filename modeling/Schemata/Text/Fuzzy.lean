/-!
# Fuzzy matching

A pattern matches a text if it is a subsequence of it.  The score of an alignment counts
its matched characters, charges for the gaps between them, and rewards characters at the
beginning of words and in runs.

The scores of one character of the pattern fill a row of cells, the first of them before
the text and one behind each of its characters.  Two rows are enough: each row is written
over the one before the last, from the first place on where its character can stand.  What
a row does not write stays as it was, also from one text to the next, so the score of a
text depends on the texts before it.
-/
namespace Schemata

namespace Fuzzy

inductive CharClass where
  | start | hardSeparator | softSeparator | digit | upper | lower
  deriving DecidableEq, Repr

def CharClass.of (c : Char) : CharClass :=
  if c = '\x00' then .start
  else if [' ', '/', '\\', '|', '(', ')', '[', ']', '{', '}'].contains c then .hardSeparator
  else if ('!' ≤ c ∧ c ≤ '\'') ∨ ('*' ≤ c ∧ c ≤ '.') ∨ (':' ≤ c ∧ c ≤ '@')
      ∨ ('^' ≤ c ∧ c ≤ '\x60') ∨ c = '~' then .softSeparator
  else if c.isDigit then .digit
  else if c.isUpper then .upper
  else .lower

/-- What a character is worth by its place after the character before it. -/
def placeBonus (before here : CharClass) : Int :=
  match before, here with
  | .start, _ => 8
  | .hardSeparator, _ => 8
  | .softSeparator, _ => 7
  | .lower, .upper => 6
  | .digit, .upper => 6
  | _, _ => 0

def placesAfter : CharClass → List Char → List (Char × Int)
  | _, [] => []
  | before, c :: rest =>
    (c, placeBonus before (CharClass.of c)) :: placesAfter (CharClass.of c) rest

/-- The characters of a text with their bonuses; that of the first one counts twice. -/
def places (text : List Char) : List (Char × Int) :=
  match placesAfter .start text with
  | (c, bonus) :: rest => (c, 2 * bonus) :: rest
  | [] => []

/-- The reward of a character that continues a run. -/
def runBonus : Int := 4

def gapOpening : Int := -3

def gapCharacter : Int := -1

/-- A pattern with a capital is matched exactly. -/
def agrees (exact : Bool) (c p : Char) : Bool :=
  c = p || (!exact && c.toLower = p.toLower)

def matchScore (c p : Char) : Int := if c = p then 16 else 14

/-- The places where the characters of a pattern can stand at the earliest, counted from
`n`; none if the pattern is no subsequence of the text. -/
def earliest? (exact : Bool) : Nat → List Char → List Char → Option (List Nat)
  | _, [], _ => some []
  | _, _ :: _, [] => none
  | n, p :: ps, c :: cs =>
    if agrees exact c p then (earliest? exact (n + 1) ps cs).map (n :: ·)
    else earliest? exact (n + 1) (p :: ps) cs

/-- The best scores of alignments of a part of the pattern to a part of the text: those
whose last characters match, and those that end in a gap.  The bonus is that of the run
which the next character of the text continues. -/
structure Cell where
  matched : Int
  skipped : Int
  bonus : Int
  deriving DecidableEq, Repr

/-- Stands for the score of no alignment. -/
def floor : Int := -32768

def Cell.blank : Cell := ⟨floor, floor, 0⟩

/-- Before the pattern begins, any number of characters are one gap. -/
def Cell.leading : Cell := ⟨floor, gapCharacter, 0⟩

/-- The cell behind a character of the text, written over an old one, and the cell before
that character with the bonus of its run.  The diagonal cell is the one before both. -/
def Cell.next (exact : Bool) (p : Char) (place : Char × Int) (diagonal left old : Cell) :
    Cell × Cell :=
  let skipped := max (left.matched + gapOpening + gapCharacter) (left.skipped + gapCharacter)
  if agrees exact place.1 p then
    let bonus := max left.bonus (max place.2 runBonus)
    let before := max (diagonal.matched + bonus) (diagonal.skipped + place.2)
    ({ left with bonus := bonus }, ⟨before + matchScore place.1 p, skipped, old.bonus⟩)
  else (left, ⟨floor, skipped, 0⟩)

/-- The cells from one cell on, from the row above and the cells to be written over. -/
def fill (exact : Bool) (p : Char) : Cell → List (Char × Int) → List Cell → List Cell → List Cell
  | left, place :: places, diagonal :: above, old :: row =>
    let (left, cell) := Cell.next exact p place diagonal left old
    left :: fill exact p cell places above row
  | left, _, _, _ => [left]

/-- The row that is written next and the one that was written last. -/
structure Rows where
  next : List Cell
  last : List Cell

/-- Writes the row of a character, from its earliest place on. -/
def Rows.write (exact : Bool) (places : List (Char × Int)) (rows : Rows) (p : Char × Nat) : Rows :=
  match rows.next.drop p.2 with
  | left :: old =>
    ⟨rows.last,
      rows.next.take p.2 ++ fill exact p.1 left (places.drop p.2) (rows.last.drop p.2) old⟩
  | [] => ⟨rows.last, rows.next⟩

/-- The rows before the first character: one begins the alignments, the other is the second
of two rows of this width among some cells, blank where there are none. -/
def Rows.ofCells (cells : List Cell) (width first : Nat) : Rows where
  next :=
    let kept := (cells.drop width).take width
    (kept ++ List.replicate (width - kept.length) Cell.blank).set first Cell.blank
  last := List.replicate width Cell.leading

/-- The cells of both rows; of an odd number of characters the last is in the second row. -/
def Rows.cells (rows : Rows) (written : Nat) : List Cell :=
  if written % 2 = 0 then rows.last ++ rows.next else rows.next ++ rows.last

/-- The score of a text after others that left some cells, and the cells it leaves; none if
the pattern is no subsequence. -/
def score? (cells : List Cell) (text pattern : List Char) : Option (Int × List Cell) :=
  if pattern.isEmpty then some (0, cells)
  else do
    let exact := pattern.any Char.isUpper
    let found ← earliest? exact 0 pattern text
    let rows := (pattern.zip found).foldl (Rows.write exact (places text))
      (Rows.ofCells cells (text.length + 1) (found.headD 0))
    let ends := rows.last.drop (found.getLastD 0)
    pure (ends.foldl (fun best cell => max best cell.matched) floor, rows.cells pattern.length)

/-- The cells of the texts so far and the best of them with its score. -/
structure Search where
  cells : List Cell := []
  best : Option (Int × String) := none

/-- A text with the highest score so far becomes the best one. -/
def Search.add (pattern : List Char) (s : Search) (candidate : String) : Search :=
  match score? s.cells candidate.toList pattern with
  | none => s
  | some (score, cells) =>
    match s.best with
    | some (highest, _) =>
      ⟨cells, if highest ≤ score then some (score, candidate) else s.best⟩
    | none => ⟨cells, some (score, candidate)⟩

/-- The last of the candidates with the highest score. -/
def bestMatch? (candidates : List String) (pattern : String) : Option String :=
  (candidates.foldl (Search.add pattern.toList) {}).best.map Prod.snd

end Fuzzy

end Schemata
