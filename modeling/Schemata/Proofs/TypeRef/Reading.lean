import Schemata.Proofs.TypeRef.Occurrences

/-!
# Reading without a bound

The reader counts levels, arguments and array marks, and every one of them takes a character.
A count that is larger than the text therefore changes nothing, and what is read satisfies the
equations of the grammar without any count.
-/
namespace Schemata

namespace TypeRef

/-- The occurrence at the beginning of a text. -/
def read : Reader := fun text => readDepth (text.length + 1) text

/-- The arguments at the beginning of a text, up to the closing mark. -/
def arguments (done : List TypeRef) (text : List Char) :
    Except Failure (List TypeRef × List Char) :=
  readArgs read (text.length + 1) done text

/-- The array marks at the beginning of a text. -/
def marks (t : TypeRef) (text : List Char) : TypeRef × List Char :=
  readArrays (text.length + 1) t text

/-- Two readers that give the same for every text of less than this length. -/
def AgreeBelow (size : Nat) (first second : Reader) : Prop :=
  ∀ text, text.length < size → first text = second text

variable {first second : Reader} {text : List Char}

theorem length_lt_of_trimStart {c : Char} {rest : List Char}
    (h : Text.trimStart text = c :: rest) : rest.length < text.length := by
  have trimmed := length_trimStart_le text
  rw [h, List.length_cons] at trimmed
  exact trimmed

theorem readArrays_rounds (t : TypeRef) {rounds more : Nat} (h : text.length < rounds)
    (h' : text.length < more) : readArrays rounds t text = readArrays more t text := by
  induction rounds generalizing more t text with
  | zero => omega
  | succ rounds ih =>
    cases more with
    | zero => omega
    | succ more =>
      rw [readArrays, readArrays]
      split
      · rename_i after hmarks
        have shorter := length_lt_of_trimStart hmarks
        simp only [List.length_cons] at shorter
        exact ih (.array t) (by omega) (by omega)
      · rfl

theorem readArgs_congr {size : Nat} (agree : AgreeBelow size first second)
    (reads : ReadsLess first) (done : List TypeRef) {rounds more : Nat}
    (hsize : text.length < size) (h : text.length < rounds) (h' : text.length < more) :
    readArgs first rounds done text = readArgs second more done text := by
  induction rounds generalizing more done text with
  | zero => omega
  | succ rounds ih =>
    cases more with
    | zero => omega
    | succ more =>
      rw [readArgs, readArgs, ← agree text hsize]
      cases hread : first text with
      | error e => rfl
      | ok found =>
        obtain ⟨arg, after⟩ := found
        have shorter := reads text arg after hread
        dsimp only
        split
        · rename_i next hcomma
          have later := length_lt_of_trimStart hcomma
          exact ih (arg :: done) (by omega) (by omega) (by omega)
        · rfl
        · rfl

/-- An occurrence is read with the help of shorter texts only. -/
theorem readWith_congr (agree : AgreeBelow text.length first second) (reads : ReadsLess first) :
    readWith first text = readWith second text := by
  rw [readWith, readWith]
  split
  · rename_i rest hmark
    have shorter := length_lt_of_trimStart hmark
    have word {name after : List Char} (h : keyword? name rest = some after) :
        first after = second after :=
      agree after (Nat.lt_of_le_of_lt (length_keyword?_le h) shorter)
    rw [readWildcard, readWildcard]
    split
    · rename_i after hafter
      rw [word hafter]
    · split
      · rename_i after hafter
        rw [word hafter]
      · rfl
  · rw [readNamed, readNamed]
    split
    · rfl
    · split
      · rename_i next hmark
        have name := (List.dropWhile_sublist isNameChar (l := Text.trimStart text)).length_le
        have trimmed := length_trimStart_le text
        have shorter := length_lt_of_trimStart hmark
        rw [readArgs_congr agree reads [] (by omega) (Nat.lt_succ_self _) (Nat.lt_succ_self _)]
      · rfl

/-- More levels than the text has characters change nothing. -/
theorem readDepth_levels {depth more : Nat} (h : text.length < depth) (h' : text.length < more) :
    readDepth depth text = readDepth more text := by
  induction depth generalizing more text with
  | zero => omega
  | succ depth ih =>
    cases more with
    | zero => omega
    | succ more =>
      -- One level reads what is shorter with the next, and comes to less than it was given.
      rw [readDepth, readDepth]
      apply readWith_congr
      · intro shorter hshorter
        exact ih (by omega) (by omega)
      · exact readsLess_readDepth depth

theorem readDepth_eq_read {depth : Nat} (h : text.length < depth) :
    readDepth depth text = read text :=
  readDepth_levels h (Nat.lt_succ_self _)

theorem readsLess_read : ReadsLess read := fun text => readsLess_readDepth (text.length + 1) text

theorem read_eq (text : List Char) : read text = readWith read text := by
  rw [read, readDepth]
  apply readWith_congr
  · intro shorter hshorter
    exact readDepth_eq_read hshorter
  · exact readsLess_readDepth _

/-! ### Array marks and arguments, one at a time -/

theorem marks_of_mark (t : TypeRef) {after : List Char}
    (h : Text.trimStart text = '[' :: ']' :: after) : marks t text = marks (.array t) after := by
  have shorter := length_lt_of_trimStart h
  simp only [List.length_cons] at shorter
  rw [marks, readArrays]
  simp only [h]
  exact readArrays_rounds (.array t) (by omega) (Nat.lt_succ_self _)

theorem marks_of_end (t : TypeRef)
    (h : ∀ after, Text.trimStart text ≠ '[' :: ']' :: after) :
    marks t text = (t, Text.trimStart text) := by
  rw [marks, readArrays]
  split
  · rename_i after hmarks
    exact absurd hmarks (h after)
  · rfl

theorem arguments_of_error (done : List TypeRef) {e : Failure} (h : read text = .error e) :
    arguments done text = .error e := by
  rw [arguments, readArgs, h]

theorem arguments_of_comma (done : List TypeRef) {arg : TypeRef} {after next : List Char}
    (h : read text = .ok (arg, after)) (comma : Text.trimStart after = ',' :: next) :
    arguments done text = arguments (arg :: done) next := by
  have shorter := readsLess_read text arg after h
  have later := length_lt_of_trimStart comma
  rw [arguments, readArgs, h]
  simp only [comma]
  exact readArgs_congr (fun _ _ => rfl) readsLess_read (arg :: done) (Nat.lt_succ_self _)
    (by omega) (Nat.lt_succ_self _)

theorem arguments_of_end (done : List TypeRef) {arg : TypeRef} {after next : List Char}
    (h : read text = .ok (arg, after)) (closing : Text.trimStart after = '>' :: next) :
    arguments done text = .ok ((arg :: done).reverse, next) := by
  rw [arguments, readArgs, h]
  simp only [closing]

theorem arguments_of_other (done : List TypeRef) {arg : TypeRef} {after : List Char}
    (h : read text = .ok (arg, after)) (comma : ∀ next, Text.trimStart after ≠ ',' :: next)
    (closing : ∀ next, Text.trimStart after ≠ '>' :: next) :
    arguments done text = .error (.expectedCommaOrEnd (Text.trimStart after)) := by
  rw [arguments, readArgs, h]
  dsimp only
  split
  · rename_i next hcomma
    exact absurd hcomma (comma next)
  · rename_i next hclosing
    exact absurd hclosing (closing next)
  · rfl

/-- A name with its arguments and array marks, without a count. -/
theorem readNamed_read (text : List Char) :
    readNamed read text =
      if (text.takeWhile isNameChar).isEmpty then .error (.expectedName text)
      else
        match Text.trimStart (text.dropWhile isNameChar) with
        | '<' :: next =>
          match arguments [] next with
          | .error e => .error e
          | .ok (args, after) =>
            .ok (marks (generic (String.ofList (text.takeWhile isNameChar)) args) after)
        | other => .ok (marks (plain (String.ofList (text.takeWhile isNameChar))) other) := rfl

end TypeRef

end Schemata
