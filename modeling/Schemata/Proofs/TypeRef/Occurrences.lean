import Schemata.Naming.Mangle
import Schemata.TypeRef.Parser

/-!
# Occurrences inside an occurrence

The arguments of a named type, the element of an array and the bounds of a parameter or a
wildcard are parts of it, and have parts in turn.  There are as many occurrences inside one as
it weighs, and a text is no shorter than what is read from it.
-/
namespace Schemata

open Mangle

namespace TypeRef

/-- What an occurrence is made of. -/
def parts : TypeRef → List TypeRef
  | .named _ args _ => args
  | .array element => [element]
  | .placeholder _ bounds => bounds
  | .wildcard bounds => bounds

mutual

/-- The occurrence and all that are inside it. -/
def occurrences : TypeRef → List TypeRef
  | .named name args directives => .named name args directives :: occurrencesAll args
  | .array element => .array element :: occurrences element
  | .placeholder name bounds => .placeholder name bounds :: occurrencesAll bounds
  | .wildcard bounds => .wildcard bounds :: occurrencesAll bounds

def occurrencesAll : List TypeRef → List TypeRef
  | [] => []
  | t :: rest => occurrences t ++ occurrencesAll rest

end

theorem occurrencesAll_eq_flatMap (ts : List TypeRef) :
    occurrencesAll ts = ts.flatMap occurrences := by
  induction ts with
  | nil => rfl
  | cons t rest ih => rw [occurrencesAll, ih, List.flatMap_cons]

theorem occurrences_eq_cons (t : TypeRef) : occurrences t = t :: occurrencesAll t.parts := by
  cases t with
  | array element => simp [occurrences, parts, occurrencesAll]
  | named | placeholder | wildcard => simp [occurrences, parts]

theorem mem_occurrences_self (t : TypeRef) : t ∈ occurrences t := by
  rw [occurrences_eq_cons]
  exact List.mem_cons_self

theorem weights_eq_sumOf (ts : List TypeRef) : weights ts = sumOf weight ts := by
  induction ts with
  | nil => rfl
  | cons t rest ih => rw [weights, ih, sumOf_cons]

theorem weight_eq_succ (t : TypeRef) : weight t = sumOf weight t.parts + 1 := by
  cases t <;> simp [weight, parts, weights_eq_sumOf]

theorem weight_lt_of_mem_parts {s t : TypeRef} (h : s ∈ t.parts) : weight s < weight t := by
  rw [weight_eq_succ t]
  exact Nat.lt_succ_of_le (le_sumOf_of_mem h)

/-- An induction over occurrences by what they are made of. -/
theorem inductionOnParts {motive : TypeRef → Prop}
    (step : ∀ t, (∀ s ∈ t.parts, motive s) → motive t) (t : TypeRef) : motive t := by
  have bounded (n : Nat) : ∀ t, weight t < n → motive t := by
    induction n with
    | zero => exact fun t h => absurd h (Nat.not_lt_zero _)
    | succ n ih =>
      exact fun t h => step t fun s hs => ih s (by have := weight_lt_of_mem_parts hs; omega)
  exact bounded _ t (Nat.lt_succ_self _)

/-- What a part is made of is inside the occurrence as well. -/
theorem parts_subset_occurrences {s t : TypeRef} (h : s ∈ occurrences t) :
    s.parts ⊆ occurrences t := by
  induction t using inductionOnParts with
  | step t ih =>
    rw [occurrences_eq_cons, occurrencesAll_eq_flatMap] at h ⊢
    intro r hr
    refine List.mem_cons_of_mem _ (List.mem_flatMap.mpr ?_)
    rcases List.mem_cons.mp h with rfl | inside
    · exact ⟨r, hr, mem_occurrences_self r⟩
    · obtain ⟨part, hpart, hs⟩ := List.mem_flatMap.mp inside
      exact ⟨part, hpart, ih part hpart hs hr⟩

theorem length_occurrences (t : TypeRef) : (occurrences t).length = weight t := by
  induction t using inductionOnParts with
  | step t ih =>
    rw [occurrences_eq_cons, List.length_cons, occurrencesAll_eq_flatMap,
      length_flatMap_eq_sumOf, sumOf_congr ih, weight_eq_succ]

theorem substitute_nil (t : TypeRef) : t.substitute [] = t := by
  induction t using inductionOnParts with
  | step t ih =>
    have all (ts : List TypeRef) (h : ∀ s ∈ ts, s.substitute [] = s) :
        substituteAll [] ts = ts := by
      rw [substituteAll_eq_map, List.map_congr_left h, List.map_id']
    cases t with
    | named name args directives => rw [substitute, all args ih]
    | array element => rw [substitute, ih element (List.mem_singleton_self _)]
    | placeholder name bounds => rfl
    | wildcard bounds => rw [substitute, all bounds ih]

/-! ### Reading -/

/-- What is read weighs no more than the text that was taken for it. -/
def ReadsLess (read : Reader) : Prop :=
  ∀ text t rest, read text = .ok (t, rest) → weight t + rest.length ≤ text.length

theorem length_trimStart_le (text : List Char) : (Text.trimStart text).length ≤ text.length :=
  (List.dropWhile_sublist _).length_le

theorem length_dropBeginning?_le {beginning text rest : List Char}
    (h : Text.dropBeginning? beginning text = some rest) : rest.length ≤ text.length := by
  induction beginning generalizing text with
  | nil =>
    cases h
    exact Nat.le_refl _
  | cons b beginning ih =>
    cases text with
    | nil => cases h
    | cons c text =>
      rw [Text.dropBeginning?] at h
      split at h
      · exact Nat.le_succ_of_le (ih h)
      · cases h

theorem length_keyword?_le {word text rest : List Char} (h : keyword? word text = some rest) :
    rest.length ≤ text.length := by
  obtain ⟨h, -⟩ := Option.filter_eq_some_iff.mp h
  exact Nat.le_trans (length_dropBeginning?_le h) (length_trimStart_le text)

theorem weight_readArrays_le (rounds : Nat) (t : TypeRef) (text : List Char) :
    weight (readArrays rounds t text).1 + (readArrays rounds t text).2.length ≤
      weight t + text.length := by
  induction rounds generalizing t text with
  | zero => exact Nat.le_refl _
  | succ rounds ih =>
    have trimmed := length_trimStart_le text
    rw [readArrays]
    split
    · rename_i after hmarks
      have later := ih (.array t) after
      rw [hmarks, List.length_cons, List.length_cons] at trimmed
      rw [weight] at later
      omega
    · exact Nat.add_le_add_left trimmed _

theorem weight_readArgs_le {inner : Reader} (hinner : ReadsLess inner) {rounds : Nat}
    {done args : List TypeRef} {text rest : List Char}
    (h : readArgs inner rounds done text = .ok (args, rest)) :
    sumOf weight args + rest.length ≤ sumOf weight done + text.length := by
  induction rounds generalizing done text with
  | zero => cases h
  | succ rounds ih =>
    rw [readArgs] at h
    split at h
    · cases h
    · rename_i arg after harg
      have first := hinner text arg after harg
      have trimmed := length_trimStart_le after
      split at h
      · rename_i next hcomma
        have later := ih h
        rw [hcomma, List.length_cons] at trimmed
        rw [sumOf_cons] at later
        omega
      · rename_i next hend
        cases h
        rw [hend, List.length_cons] at trimmed
        rw [sumOf_reverse, sumOf_cons]
        omega
      · cases h

theorem readsLess_readWildcard {inner : Reader} (hinner : ReadsLess inner)
    {text rest : List Char} {t : TypeRef} (h : readWildcard inner text = .ok (t, rest)) :
    weight t + rest.length ≤ text.length + 1 := by
  unfold readWildcard at h
  split at h
  · rename_i after hafter
    have word := length_keyword?_le hafter
    cases hread : inner after with
    | error e =>
      rw [hread] at h
      cases h
    | ok r =>
      have inside := hinner after r.1 r.2 hread
      rw [hread] at h
      cases h
      rw [weight_eq_succ, parts, sumOf_cons, sumOf_nil]
      omega
  · split at h
    · rename_i after hafter
      have word := length_keyword?_le hafter
      cases hread : inner after with
      | error e =>
        rw [hread] at h
        cases h
      | ok r =>
        have inside := hinner after r.1 r.2 hread
        rw [hread] at h
        cases h
        rw [weight_eq_succ, parts, sumOf_nil]
        omega
    · cases h
      rw [weight_eq_succ, parts, sumOf_nil]
      omega

theorem readsLess_readNamed {inner : Reader} (hinner : ReadsLess inner) :
    ReadsLess (readNamed inner) := by
  intro text t rest h
  unfold readNamed at h
  dsimp only at h
  have cut := congrArg List.length (List.takeWhile_append_dropWhile (p := isNameChar) (l := text))
  rw [List.length_append] at cut
  split at h
  · cases h
  · rename_i named
    have first : 0 < (text.takeWhile isNameChar).length := by
      rw [List.length_pos_iff]
      simpa using named
    have trimmed := length_trimStart_le (text.dropWhile isNameChar)
    split at h
    · rename_i next hmark
      rw [hmark, List.length_cons] at trimmed
      split at h
      · cases h
      · rename_i args after hargs
        have inside := weight_readArgs_le hinner hargs
        have marks := weight_readArrays_le (after.length + 1)
          (generic (String.ofList (text.takeWhile isNameChar)) args) after
        rw [Except.ok.inj h, weight_eq_succ (generic _ _)] at marks
        simp only [generic, parts, sumOf_nil] at marks inside ⊢
        omega
    · have marks := weight_readArrays_le ((Text.trimStart (text.dropWhile isNameChar)).length + 1)
        (plain (String.ofList (text.takeWhile isNameChar)))
        (Text.trimStart (text.dropWhile isNameChar))
      rw [Except.ok.inj h, weight_eq_succ (plain _)] at marks
      simp only [plain, parts, sumOf_nil] at marks ⊢
      omega

theorem readsLess_readDepth (depth : Nat) : ReadsLess (readDepth depth) := by
  induction depth with
  | zero => exact fun text t rest h => by cases h
  | succ depth ih =>
    intro text t rest h
    have trimmed := length_trimStart_le text
    rw [readDepth, readWith] at h
    split at h
    · rename_i after hmark
      have inside := readsLess_readWildcard ih h
      rw [hmark, List.length_cons] at trimmed
      omega
    · have inside := readsLess_readNamed ih _ t rest h
      omega

/-- A type weighs no more than the text that names it. -/
theorem weight_le_of_parse? {text : String} {t : TypeRef} (h : parse? text = some t) :
    weight t ≤ text.length := by
  unfold parse? parse at h
  cases hall : readAll text.toList with
  | error e =>
    rw [hall] at h
    cases h
  | ok found =>
    rw [hall] at h
    cases h
    unfold readAll at hall
    split at hall
    · cases hall
    · rename_i found rest hread
      have whole := readsLess_readDepth _ _ _ _ hread
      split at hall
      · cases hall
        rw [String.length_toList] at whole
        omega
      · cases hall

end TypeRef

end Schemata
