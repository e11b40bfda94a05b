import Schemata.Proofs.DocText.Reading
import Schemata.Proofs.Text.Blanks

/-!
# Documentation is split at its tags

What stands before the first tag describes the element; a tag that is the word for parameters alone
and names one opens an entry, which goes on up to the next tag; and whatever else stands under a tag
is dropped.  Lines that are read so come to just that.
-/
namespace Schemata

namespace DocText

variable {line : List Char}

/-- Whether a line begins with a tag. -/
def isTag (line : List Char) : Bool := line.head? = some '@'

/-- The name and the text of a parameter, if the tag is the word for parameters alone and names
one. -/
def parameter? (line : List Char) : Option (String × String) :=
  let (tag, rest) := splitWord line
  let (name, body) := splitWord (Text.trim rest)
  if tag = parameterTag ∧ name ≠ [] then
    some (String.ofList name, String.ofList (Text.trim body))
  else none

/-- The lines in front of the first tag. -/
def upToTag (lines : List (List Char)) : List (List Char) := lines.takeWhile (!isTag ·)

/-- Every tag that names a parameter opens an entry, which goes on up to the next tag of any
kind. -/
def entries : List (List Char) → List (String × String)
  | [] => []
  | line :: rest =>
    match parameter? line with
    | some (name, body) => (name, continued body (upToTag rest)) :: entries rest
    | none => entries rest

/-- The description in front of the first tag, and the entries of the parameters; nothing else is
kept. -/
def splitAtTags (lines : List (List Char)) : DocText :=
  ⟨described (upToTag lines), Assoc.ofList (entries lines)⟩

/-- How a line should be read. -/
def Line.stated (line : List Char) : Line :=
  match parameter? line with
  | some (name, body) => .param name body
  | none => if isTag line then .otherTag else .text line

/-- Blanks after a word are trimmed, the first of them as well. -/
theorem trim_splitWord (line : List Char) :
    Text.trim (splitWord line).2 = Text.trim (line.dropWhile (!Text.isBlank ·)) := by
  have begins := List.head?_dropWhile_not (!Text.isBlank ·) line
  rw [splitWord]
  dsimp only
  cases after : line.dropWhile (!Text.isBlank ·) with
  | nil => rfl
  | cons c rest =>
    rw [after] at begins
    have blank : Text.isBlank c = true := by simpa using begins
    rw [List.drop_one, List.tail_cons, Text.trim, Text.trim, Text.trimStart_cons_of_blank blank]

/-- A tag that tells of a parameter is read as its entry. -/
theorem read_of_parameter? {name body : String} (h : parameter? line = some (name, body)) :
    Line.read line = .param name body ∧ name ≠ "" ∧ isTag line = true := by
  unfold parameter? at h
  dsimp only at h
  split at h
  · rename_i stated
    obtain ⟨tag, named⟩ := stated
    obtain ⟨rfl, rfl⟩ := Prod.mk.inj (Option.some.inj h)
    have whole : line = parameterTag ++ line.dropWhile (!Text.isBlank ·) := by
      rw [← tag]
      exact List.takeWhile_append_dropWhile.symm
    refine ⟨?_, fun none => named (String.ofList_injective none), by rw [whole]; rfl⟩
    rw [Line.read, Text.dropBeginning?_eq_some_iff.mpr whole]
    dsimp only
    rw [← trim_splitWord line]
  · cases h

/-- A line tells of a parameter, is another tag, or has no tag. -/
theorem stated_cases (line : List Char) :
    (∃ name body, parameter? line = some (name, body) ∧ Line.stated line = .param name body ∧
      name ≠ "" ∧ isTag line = true) ∨
    (parameter? line = none ∧ Line.stated line = .otherTag ∧ isTag line = true) ∨
    (parameter? line = none ∧ Line.stated line = .text line ∧ isTag line = false) := by
  unfold Line.stated
  cases stated : parameter? line with
  | some entry =>
    obtain ⟨-, named, tag⟩ := read_of_parameter? stated
    exact .inl ⟨_, _, rfl, rfl, named, tag⟩
  | none =>
    cases tag : isTag line with
    | true => exact .inr (.inl ⟨rfl, rfl, rfl⟩)
    | false => exact .inr (.inr ⟨rfl, rfl, rfl⟩)

/-! ### What should be read -/

theorem upToTag_cons (line : List Char) (rest : List (List Char)) :
    upToTag (line :: rest) = if isTag line then [] else line :: upToTag rest := by
  rw [upToTag, List.takeWhile_cons]
  cases isTag line <;> rfl

theorem told_map_stated (lines : List (List Char)) :
    told (lines.map Line.stated) = upToTag lines := by
  induction lines with
  | nil => rfl
  | cons line rest ih =>
    rw [List.map_cons, upToTag_cons]
    rcases stated_cases line with ⟨name, body, -, stated, named, tag⟩ | ⟨-, stated, tag⟩ |
      ⟨-, stated, tag⟩
    · rw [stated, tag, told, if_neg named, if_pos rfl]
    · rw [stated, tag, if_pos rfl]
      rfl
    · rw [stated, tag, told, ih]
      rfl

theorem reopened_map_stated (lines : List (List Char)) :
    reopened (lines.map Line.stated) = [] := by
  induction lines with
  | nil => rfl
  | cons line rest ih =>
    rw [List.map_cons]
    rcases stated_cases line with ⟨name, body, -, stated, named, -⟩ | ⟨-, stated, -⟩ |
      ⟨-, stated, -⟩
    · rw [stated, reopened, if_neg named]
    · rw [stated]
      rfl
    · rw [stated, reopened, ih]

theorem resumed_map_stated (lines : List (List Char)) :
    resumed (lines.map Line.stated) = [] := by
  induction lines with
  | nil => rfl
  | cons line rest ih =>
    rw [List.map_cons]
    rcases stated_cases line with ⟨name, body, -, stated, -⟩ | ⟨-, stated, -⟩ | ⟨-, stated, -⟩
    · rw [stated, resumed, ih]
      exact fun other => by cases other
    · rw [stated, resumed, reopened_map_stated, ih, List.nil_append]
    · rw [stated, resumed, ih]
      exact fun other => by cases other

theorem opened_map_stated (lines : List (List Char)) :
    opened (lines.map Line.stated) = entries lines := by
  induction lines with
  | nil => rfl
  | cons line rest ih =>
    rw [List.map_cons, entries]
    rcases stated_cases line with ⟨name, body, entry, stated, named, -⟩ | ⟨entry, stated, -⟩ |
      ⟨entry, stated, -⟩
    · rw [stated, entry, opened, if_neg named, told_map_stated, ih]
    · rw [stated, entry]
      exact ih
    · rw [stated, entry]
      exact ih

/-- What should be read of some lines. -/
def statedOf (lines : List (List Char)) : State := State.after {} (lines.map Line.stated)

/-- Lines that are read as they should be are split at their tags. -/
theorem doc_statedOf (lines : List (List Char)) : (statedOf lines).doc = splitAtTags lines := by
  obtain ⟨description, params⟩ := after_eq {} (lines.map Line.stated)
  rw [statedOf, State.doc, description, params, resumed_map_stated, opened_map_stated, State.follow]
  dsimp only
  rw [told_map_stated, List.nil_append, List.append_nil]
  rfl

end DocText

end Schemata
