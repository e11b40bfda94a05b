import Schemata.Proofs.TypeRef.Acceptance

/-!
# Reading by byte positions

A reader that goes by positions cuts the text at a byte again and again, which fails outside of
the text and inside of a character.  Its runs are a relation in which every cut has to succeed
and nothing bounds the depth.  There is exactly one run for every text, and it ends as the text
is read: reading terminates, no cut fails, and every failure is reported at a position of the
text.
-/
namespace Schemata

namespace TypeRef

open Text Json

namespace Positions

/-- The rest of a text from a byte on; none outside of the text and inside of a character. -/
def restAt? : List Char → Nat → Option (List Char)
  | text, 0 => some text
  | [], _ + 1 => none
  | c :: text, pos + 1 =>
    if c.utf8Size ≤ pos + 1 then restAt? text (pos + 1 - c.utf8Size) else none

/-- The text before a byte. -/
def before? (text : List Char) (pos : Nat) : Option (List Char) :=
  (restAt? text pos).map fun rest => text.take (text.length - rest.length)

/-- The position after the blanks. -/
def skip? (text : List Char) (pos : Nat) : Option Nat := do
  let rest ← restAt? text pos
  pure (pos + (byteLength rest - byteLength (trimStart rest)))

/-- Whether a mark follows, and the position after it. -/
def eat? (text : List Char) (c : Char) (pos : Nat) : Option (Bool × Nat) := do
  let pos ← skip? text pos
  let rest ← restAt? text pos
  pure (if rest.head? = some c then (true, pos + c.utf8Size) else (false, pos))

/-- Whether a word follows, with a blank or nothing after it, and the position after it. -/
def word? (text word : List Char) (pos : Nat) : Option (Bool × Nat) := do
  let pos ← skip? text pos
  let rest ← restAt? text pos
  match dropBeginning? word rest with
  | some after =>
    pure (if after.head?.all isBlank then (true, pos + byteLength word) else (false, pos))
  | none => pure (false, pos)

/-- The name that follows, if there is one, and the position after it. -/
def name? (text : List Char) (pos : Nat) : Option (Option String × Nat) := do
  let pos ← skip? text pos
  let rest ← restAt? text pos
  let size := byteLength (rest.takeWhile isNameChar)
  if size = 0 then pure (none, pos)
  else
    let name ← before? rest size
    pure (some (String.ofList name), pos + size)

/-- What is read next: an occurrence, the arguments of a name after those that are done, or the
array marks of an occurrence. -/
inductive Phase where
  | type
  | args (name : String) (done : List TypeRef)
  | marks (t : TypeRef)

/-- The end of a run: an occurrence and the position after it, or a failure at a position. -/
abbrev Ending := Except (Failure × Nat) (TypeRef × Nat)

def Ending.map (f : TypeRef → TypeRef) : Ending → Ending
  | .ok (t, pos) => .ok (f t, pos)
  | .error e => .error e

/-- The runs of a reader that goes by positions. -/
inductive Run (text : List Char) : Phase → Nat → Ending → Prop
  | upper {pos p q ending} (mark : eat? text '?' pos = some (true, p))
    (word : word? text "extends".toList p = some (true, q)) (bound : Run text .type q ending) :
    Run text .type pos (ending.map fun t => .wildcard [t])
  | lower {pos p q r ending} (mark : eat? text '?' pos = some (true, p))
    (word : word? text "extends".toList p = some (false, q))
    (word' : word? text "super".toList q = some (true, r)) (bound : Run text .type r ending) :
    Run text .type pos (ending.map fun _ => .wildcard [])
  | unbounded {pos p q r} (mark : eat? text '?' pos = some (true, p))
    (word : word? text "extends".toList p = some (false, q))
    (word' : word? text "super".toList q = some (false, r)) :
    Run text .type pos (.ok (.wildcard [], r))
  | nameless {pos p q rest} (mark : eat? text '?' pos = some (false, p))
    (named : name? text p = some (none, q)) (here : restAt? text q = some rest) :
    Run text .type pos (.error (.expectedName rest, q))
  | plain {pos p q r name ending} (mark : eat? text '?' pos = some (false, p))
    (named : name? text p = some (some name, q)) (opening : eat? text '<' q = some (false, r))
    (marks : Run text (.marks (plain name)) r ending) : Run text .type pos ending
  | generic {pos p q r name ending} (mark : eat? text '?' pos = some (false, p))
    (named : name? text p = some (some name, q)) (opening : eat? text '<' q = some (true, r))
    (args : Run text (.args name []) r ending) : Run text .type pos ending
  | badArg {pos name done e} (arg : Run text .type pos (.error e)) :
    Run text (.args name done) pos (.error e)
  | more {pos p q name done arg ending} (first : Run text .type pos (.ok (arg, p)))
    (comma : eat? text ',' p = some (true, q))
    (others : Run text (.args name (arg :: done)) q ending) : Run text (.args name done) pos ending
  | last {pos p q r name done arg ending} (first : Run text .type pos (.ok (arg, p)))
    (comma : eat? text ',' p = some (false, q)) (closing : eat? text '>' q = some (true, r))
    (marks : Run text (.marks (generic name (arg :: done).reverse)) r ending) :
    Run text (.args name done) pos ending
  | unclosed {pos p q r name done arg rest} (first : Run text .type pos (.ok (arg, p)))
    (comma : eat? text ',' p = some (false, q)) (closing : eat? text '>' q = some (false, r))
    (here : restAt? text r = some rest) :
    Run text (.args name done) pos (.error (.expectedCommaOrEnd rest, r))
  | mark {pos p t after ending} (blanks : skip? text pos = some p)
    (here : restAt? text p = some ('[' :: ']' :: after))
    (marks : Run text (.marks (.array t)) (p + 2) ending) : Run text (.marks t) pos ending
  | unmarked {pos p t rest} (blanks : skip? text pos = some p) (here : restAt? text p = some rest)
    (none : ∀ after, rest ≠ '[' :: ']' :: after) : Run text (.marks t) pos (.ok (t, p))

/-- The runs over a whole text. -/
inductive Parses (text : List Char) : Except (Failure × Nat) TypeRef → Prop
  | refused {e} (type : Run text .type 0 (.error e)) : Parses text (.error e)
  | whole {t pos} (type : Run text .type 0 (.ok (t, pos)))
    (blanks : skip? text pos = some (byteLength text)) : Parses text (.ok t)
  | unexpected {t pos p rest} (type : Run text .type 0 (.ok (t, pos)))
    (blanks : skip? text pos = some p) (inside : p ≠ byteLength text)
    (here : restAt? text p = some rest) : Parses text (.error (.unexpected rest, p))

variable {text rest : List Char} {pos : Nat}

/-! ### Cuts -/

theorem byteLength_append (text rest : List Char) :
    byteLength (text ++ rest) = byteLength text + byteLength rest :=
  sumOf_append Char.utf8Size text rest

theorem byteLength_cons (c : Char) (text : List Char) :
    byteLength (c :: text) = c.utf8Size + byteLength text := rfl

@[simp] theorem restAt?_zero (text : List Char) : restAt? text 0 = some text := by
  cases text <;> rfl

theorem restAt?_byteLength (before rest : List Char) :
    restAt? (before ++ rest) (byteLength before) = some rest := by
  induction before with
  | nil => simp [byteLength]
  | cons c before ih =>
    have size := c.utf8Size_pos
    rw [byteLength_cons]
    cases hn : c.utf8Size + byteLength before with
    | zero => omega
    | succ n =>
      rw [List.cons_append, restAt?, if_pos (by omega),
        show n + 1 - c.utf8Size = byteLength before by omega, ih]

/-- A cut succeeds exactly where a beginning of the text ends. -/
theorem restAt?_eq_some_iff :
    restAt? text pos = some rest ↔ ∃ before, text = before ++ rest ∧ byteLength before = pos := by
  constructor
  · intro h
    induction text generalizing pos with
    | nil =>
      cases pos with
      | zero => exact ⟨[], by simpa using h, rfl⟩
      | succ pos => cases h
    | cons c text ih =>
      cases pos with
      | zero => exact ⟨[], by simpa using h, rfl⟩
      | succ pos =>
        rw [restAt?] at h
        split at h
        · rename_i fits
          obtain ⟨before, rfl, size⟩ := ih h
          exact ⟨c :: before, rfl, by rw [byteLength_cons, size]; omega⟩
        · cases h
  · rintro ⟨before, rfl, rfl⟩
    exact restAt?_byteLength before rest

theorem restAt?_add (taken : List Char) (h : restAt? text pos = some (taken ++ rest)) :
    restAt? text (pos + byteLength taken) = some rest := by
  obtain ⟨before, rfl, rfl⟩ := restAt?_eq_some_iff.mp h
  rw [← byteLength_append, ← List.append_assoc]
  exact restAt?_byteLength _ rest

theorem before?_byteLength (before rest : List Char) :
    before? (before ++ rest) (byteLength before) = some before := by
  rw [before?, restAt?_byteLength]
  simp

/-! ### What a step sees is what stands there -/

section Steps

variable (h : restAt? text pos = some rest)

include h

theorem skip?_spec : ∃ p, skip? text pos = some p ∧ restAt? text p = some (trimStart rest) := by
  obtain ⟨gap, blank, eq⟩ := exists_trimStart rest
  refine ⟨pos + byteLength gap, ?_, ?_⟩
  · have size := congrArg byteLength eq
    rw [byteLength_append] at size
    simp only [skip?, h, Option.bind_eq_bind, Option.bind_some, Option.pure_def]
    congr 1
    omega
  · rw [eq] at h
    exact restAt?_add gap h

theorem eat?_of_head {c : Char} {next : List Char} (head : trimStart rest = c :: next) :
    ∃ p, eat? text c pos = some (true, p) ∧ restAt? text p = some next := by
  obtain ⟨p, skipped, here⟩ := skip?_spec h
  rw [head] at here
  refine ⟨p + c.utf8Size, ?_, restAt?_add [c] here⟩
  simp [eat?, skipped, here]

theorem eat?_of_other {c : Char} (other : ∀ next, trimStart rest ≠ c :: next) :
    ∃ p, eat? text c pos = some (false, p) ∧ restAt? text p = some (trimStart rest) := by
  obtain ⟨p, skipped, here⟩ := skip?_spec h
  refine ⟨p, ?_, here⟩
  have head : (trimStart rest).head? ≠ some c := by
    intro same
    obtain ⟨next, eq⟩ := List.head?_eq_some_iff.mp same
    exact other next eq
  simp [eat?, skipped, here, head]

theorem word?_of_keyword? {word after : List Char} (hword : keyword? word rest = some after) :
    ∃ p, word? text word pos = some (true, p) ∧ restAt? text p = some after := by
  obtain ⟨p, skipped, here⟩ := skip?_spec h
  obtain ⟨trimmed, blank⟩ := keyword?_eq_some_iff.mp hword
  have dropped := dropBeginning?_eq_some_iff.mpr trimmed
  have ended : after.head?.all isBlank = true := by
    cases after with
    | nil => rfl
    | cons c next => exact blank c next rfl
  rw [trimmed] at here dropped
  refine ⟨p + byteLength word, ?_, restAt?_add word here⟩
  simp [word?, skipped, here, dropped, ended]

theorem word?_of_none {word : List Char} (hword : keyword? word rest = none) :
    ∃ p, word? text word pos = some (false, p) ∧ restAt? text p = some (trimStart rest) := by
  obtain ⟨p, skipped, here⟩ := skip?_spec h
  refine ⟨p, ?_, here⟩
  cases dropped : dropBeginning? word (trimStart rest) with
  | none => simp [word?, skipped, here, dropped]
  | some after =>
    have trimmed := dropBeginning?_eq_some_iff.mp dropped
    have going : after.head?.all isBlank = false := by
      cases ended : after.head?.all isBlank with
      | false => rfl
      | true =>
        have found := keyword?_eq_some_iff.mpr ⟨trimmed, fun c next hc => by
          subst hc
          exact ended⟩
        rw [hword] at found
        cases found
    simp [word?, skipped, here, dropped, going]

theorem name?_of_some (some : ((trimStart rest).takeWhile isNameChar).isEmpty = false) :
    ∃ p, name? text pos = .some (.some (String.ofList ((trimStart rest).takeWhile isNameChar)), p) ∧
      restAt? text p = .some ((trimStart rest).dropWhile isNameChar) := by
  obtain ⟨p, skipped, here⟩ := skip?_spec h
  have cut := List.takeWhile_append_dropWhile (p := isNameChar) (l := trimStart rest)
  have size : byteLength ((trimStart rest).takeWhile isNameChar) ≠ 0 := by
    cases hname : (trimStart rest).takeWhile isNameChar with
    | nil =>
      rw [hname] at some
      cases some
    | cons c name =>
      have positive := c.utf8Size_pos
      rw [byteLength_cons]
      omega
  have sliced := before?_byteLength ((trimStart rest).takeWhile isNameChar)
    ((trimStart rest).dropWhile isNameChar)
  rw [cut] at sliced
  refine ⟨p + byteLength ((trimStart rest).takeWhile isNameChar), ?_, ?_⟩
  · simp [name?, skipped, here, size, sliced]
  · rw [← cut] at here
    exact restAt?_add _ here

theorem name?_of_none (none : ((trimStart rest).takeWhile isNameChar).isEmpty = true) :
    ∃ p, name? text pos = some (.none, p) ∧ restAt? text p = some (trimStart rest) := by
  obtain ⟨p, skipped, here⟩ := skip?_spec h
  refine ⟨p, ?_, here⟩
  rw [List.isEmpty_iff] at none
  simp [name?, skipped, here, none, byteLength]

end Steps

/-! ### Every text has a run -/

/-- The run ends as the text is read.  Blanks after an occurrence may have been passed. -/
inductive Located (text : List Char) : Except Failure (TypeRef × List Char) → Ending → Prop
  | found {t rest here pos} (h : restAt? text pos = some here)
    (same : trimStart here = trimStart rest) : Located text (.ok (t, rest)) (.ok (t, pos))
  | failed {e pos} (h : restAt? text pos = some e.rest) :
    Located text (.error e) (.error (e, pos))

theorem Located.map {result : Except Failure (TypeRef × List Char)} {ending : Ending}
    (h : Located text result ending) (f : TypeRef → TypeRef) :
    Located text (result.map fun r => (f r.1, r.2)) (ending.map f) := by
  cases h with
  | found h same => exact .found h same
  | failed h => exact .failed h

/-- There is a run of the phase that ends as the result says. -/
def RunsTo (text : List Char) (phase : Phase) (pos : Nat)
    (result : Except Failure (TypeRef × List Char)) : Prop :=
  ∃ ending, Run text phase pos ending ∧ Located text result ending

theorem runsTo_marks (h : restAt? text pos = some rest) (t : TypeRef) :
    RunsTo text (.marks t) pos (.ok (marks t rest)) := by
  induction hn : rest.length using Nat.strongRecOn generalizing t pos rest with
  | ind n ih =>
    obtain ⟨p, skipped, here⟩ := skip?_spec h
    by_cases mark : ∃ after, trimStart rest = '[' :: ']' :: after
    · obtain ⟨after, hafter⟩ := mark
      have shorter := length_lt_of_trimStart hafter
      simp only [List.length_cons] at shorter
      rw [hafter] at here
      have next : restAt? text (p + 2) = some after := restAt?_add ['[', ']'] here
      obtain ⟨ending, run, located⟩ := ih after.length (by omega) next (.array t) rfl
      rw [marks_of_mark t hafter]
      exact ⟨ending, .mark skipped here run, located⟩
    · have ending (after : List Char) : trimStart rest ≠ '[' :: ']' :: after :=
        fun hafter => mark ⟨after, hafter⟩
      rw [marks_of_end t ending]
      exact ⟨_, .unmarked skipped here ending, .found here rfl⟩

theorem read_of_other (h : ∀ next, trimStart rest ≠ '?' :: next) :
    read rest = readNamed read (trimStart rest) := by
  rw [read_eq, readWith]
  split
  · rename_i next hmark
    exact absurd hmark (h next)
  · rfl

theorem keyword?_trimStart (word : List Char) :
    keyword? word (trimStart rest) = keyword? word rest := by
  rw [keyword?, keyword?, trimStart_trimStart]

section Runs

/-! Every shorter rest has a run. -/

variable {size : Nat}
  (shorter : ∀ rest : List Char, rest.length < size → ∀ pos, restAt? text pos = some rest →
    RunsTo text .type pos (read rest))

include shorter

theorem runsTo_args (h : restAt? text pos = some rest) (hsize : rest.length < size)
    (name : String) (done : List TypeRef) :
    RunsTo text (.args name done) pos
      ((arguments done rest).map fun r => marks (generic name r.1) r.2) := by
  induction hn : rest.length using Nat.strongRecOn generalizing done pos rest with
  | ind n ih =>
    obtain ⟨ending, run, located⟩ := shorter rest hsize pos h
    cases hread : read rest with
    | error e =>
      rw [hread] at located
      cases located with
      | failed here =>
        rw [arguments_of_error done hread]
        exact ⟨_, .badArg run, .failed here⟩
    | ok found =>
      obtain ⟨arg, after⟩ := found
      have less := readsLess_read rest arg after hread
      rw [hread] at located
      cases located with
      | found here same =>
        by_cases comma : ∃ next, trimStart after = ',' :: next
        · obtain ⟨next, hnext⟩ := comma
          have later := length_lt_of_trimStart hnext
          obtain ⟨q, eaten, there⟩ := eat?_of_head here (same.trans hnext)
          obtain ⟨ending, others, located⟩ :=
            ih next.length (by omega) there (by omega) (arg :: done) rfl
          rw [arguments_of_comma done hread hnext]
          exact ⟨ending, .more run eaten others, located⟩
        · have noComma (next : List Char) : trimStart after ≠ ',' :: next :=
            fun hnext => comma ⟨next, hnext⟩
          -- The blanks before what is no comma are passed for good.
          obtain ⟨q, passed, there⟩ := eat?_of_other here (by rwa [same])
          rw [same] at there
          by_cases closing : ∃ next, trimStart after = '>' :: next
          · obtain ⟨next, hnext⟩ := closing
            obtain ⟨r, eaten, last⟩ :=
              eat?_of_head there ((trimStart_trimStart after).trans hnext)
            obtain ⟨ending, marked, located⟩ :=
              runsTo_marks last (generic name (arg :: done).reverse)
            rw [arguments_of_end done hread hnext]
            exact ⟨ending, .last run passed eaten marked, located⟩
          · have noEnd (next : List Char) : trimStart after ≠ '>' :: next :=
              fun hnext => closing ⟨next, hnext⟩
            obtain ⟨r, passed', last⟩ :=
              eat?_of_other there (by rwa [trimStart_trimStart])
            rw [trimStart_trimStart] at last
            rw [arguments_of_other done hread noComma noEnd]
            exact ⟨_, .unclosed run passed passed' last, .failed last⟩

theorem runsTo_wildcard {body : List Char} {p : Nat}
    (mark : eat? text '?' pos = some (true, p)) (here : restAt? text p = some body)
    (hsize : body.length < size) : RunsTo text .type pos (readWildcard read body) := by
  rw [readWildcard]
  split
  · rename_i after hword
    have less := length_keyword?_le hword
    obtain ⟨q, word, there⟩ := word?_of_keyword? here hword
    obtain ⟨ending, run, located⟩ := shorter after (by omega) q there
    exact ⟨_, .upper mark word run, located.map fun t => .wildcard [t]⟩
  · rename_i noWord
    obtain ⟨q, passed, there⟩ := word?_of_none here noWord
    split
    · rename_i after hword
      have less := length_keyword?_le hword
      obtain ⟨r, word, last⟩ := word?_of_keyword? there ((keyword?_trimStart _).trans hword)
      obtain ⟨ending, run, located⟩ := shorter after (by omega) r last
      exact ⟨_, .lower mark passed word run, located.map fun _ => .wildcard []⟩
    · rename_i noOther
      obtain ⟨r, passed', last⟩ := word?_of_none there ((keyword?_trimStart _).trans noOther)
      exact ⟨_, .unbounded mark passed passed', .found last (by simp only [trimStart_trimStart])⟩

theorem runsTo_named {first : List Char} {p : Nat} (mark : eat? text '?' pos = some (false, p))
    (here : restAt? text p = some first) (trimmed : trimStart first = first)
    (hsize : first.length ≤ size) : RunsTo text .type pos (readNamed read first) := by
  have cut := congrArg List.length (List.takeWhile_append_dropWhile (p := isNameChar) (l := first))
  rw [List.length_append] at cut
  rw [readNamed_read]
  split
  · rename_i none
    obtain ⟨q, named, there⟩ := name?_of_none here (by rwa [trimmed])
    rw [trimmed] at there
    exact ⟨_, .nameless mark named there, .failed there⟩
  · rename_i some
    obtain ⟨q, named, there⟩ := name?_of_some here (by rwa [trimmed, ← Bool.not_eq_true])
    rw [trimmed] at named there
    by_cases opening : ∃ next, trimStart (first.dropWhile isNameChar) = '<' :: next
    · obtain ⟨next, hnext⟩ := opening
      have later := length_lt_of_trimStart hnext
      obtain ⟨r, eaten, last⟩ := eat?_of_head there hnext
      obtain ⟨ending, run, located⟩ := runsTo_args shorter last (by omega)
        (String.ofList (first.takeWhile isNameChar)) []
      refine ⟨ending, .generic mark named eaten run, ?_⟩
      simp only [hnext]
      cases hargs : arguments [] next with
      | error e => rwa [hargs] at located
      | ok found => rwa [hargs] at located
    · have noArgs (next : List Char) : trimStart (first.dropWhile isNameChar) ≠ '<' :: next :=
        fun hnext => opening ⟨next, hnext⟩
      obtain ⟨r, passed, last⟩ := eat?_of_other there noArgs
      obtain ⟨ending, run, located⟩ :=
        runsTo_marks last (.plain (String.ofList (first.takeWhile isNameChar)))
      refine ⟨ending, .plain mark named passed run, ?_⟩
      split
      · rename_i next hnext
        exact absurd hnext (noArgs next)
      · exact located

end Runs

theorem runsTo_type (h : restAt? text pos = some rest) : RunsTo text .type pos (read rest) := by
  induction hn : rest.length using Nat.strongRecOn generalizing pos rest with
  | ind n ih =>
    have shorter (less : List Char) (hless : less.length < n) (p : Nat)
        (there : restAt? text p = some less) : RunsTo text .type p (read less) :=
      ih less.length hless there rfl
    have trimmed := length_trimStart_le rest
    by_cases mark : ∃ body, trimStart rest = '?' :: body
    · obtain ⟨body, hbody⟩ := mark
      have less := length_lt_of_trimStart hbody
      obtain ⟨p, eaten, here⟩ := eat?_of_head h hbody
      have same : read rest = readWildcard read body := by
        rw [read_eq, readWith, hbody]
        rfl
      rw [same]
      exact runsTo_wildcard shorter eaten here (by omega)
    · have noMark (next : List Char) : trimStart rest ≠ '?' :: next := fun hb => mark ⟨next, hb⟩
      obtain ⟨p, passed, here⟩ := eat?_of_other h noMark
      rw [read_of_other noMark]
      exact runsTo_named shorter passed here (trimStart_trimStart rest) (by omega)

/-! ### And only one -/

/-- The steps decide which rule applies, and what is read inside is the same each time. -/
theorem Run.unique {phase : Phase} {ending other : Ending} (h : Run text phase pos ending)
    (h' : Run text phase pos other) : ending = other := by
  induction h generalizing other with
  | upper mark word bound ih => cases h' <;> grind
  | lower mark word word' bound ih => cases h' <;> grind
  | unbounded mark word word' => cases h' <;> grind
  | nameless mark named here => cases h' <;> grind
  | plain mark named opening marks ih => cases h' <;> grind
  | generic mark named opening args ih => cases h' <;> grind
  | badArg arg ih => cases h' <;> grind
  | more first comma others ih ihs => cases h' <;> grind
  | last first comma closing marks ih ihs => cases h' <;> grind
  | unclosed first comma closing here ih => cases h' <;> grind
  | mark blanks here marks ih => cases h' <;> grind
  | unmarked blanks here none => cases h' <;> grind

end Positions

end TypeRef

end Schemata
