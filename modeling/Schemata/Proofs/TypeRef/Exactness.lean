import Schemata.Proofs.TypeRef.Positions
import Schemata.Proofs.TypeRef.Spacing

/-!
# The reader accepts exactly its grammar

Reading by byte positions ends for every text, in one way, without a failing cut.  It ends in
an occurrence exactly for the texts of the grammar, and that occurrence is textual; it ends in
a failure at a position of the text otherwise.  A textual occurrence is read from the text that
is written for it, and blanks around the marks make no difference.
-/
namespace Schemata

namespace TypeRef

open Text Json Positions

variable {text : String} {t : TypeRef}

theorem utf8ByteSize_ofList (text : List Char) :
    (String.ofList text).utf8ByteSize = byteLength text := by
  induction text with
  | nil => rfl
  | cons c text ih =>
    rw [← List.singleton_append, String.ofList_append, String.utf8ByteSize_append, ih,
      byteLength_append]
    congr 1
    exact String.utf8ByteSize_singleton

theorem byteLength_toList (text : String) : byteLength text.toList = text.utf8ByteSize := by
  rw [← utf8ByteSize_ofList, String.ofList_toList]

/-- A failure that stands at a position of the text is reported at this position. -/
theorem offset_eq {e : Failure} {pos : Nat} (h : restAt? text.toList pos = some e.rest) :
    (Invalid.mk text e).offset = pos := by
  obtain ⟨before, eq, size⟩ := restAt?_eq_some_iff.mp h
  have total := congrArg byteLength eq
  rw [byteLength_append] at total
  simp only [Invalid.offset]
  omega

theorem Positions.Parses.unique {text : List Char} {outcome other : Except (Failure × Nat) TypeRef}
    (h : Parses text outcome) (h' : Parses text other) : outcome = other := by
  cases h with
  | refused type => cases h' with
    | _ type' => have := type.unique type'; grind
  | whole type blanks => cases h' with
    | _ type' => have := type.unique type'; grind
  | unexpected type blanks inside here => cases h' with
    | _ type' => have := type.unique type'; grind

/-- The failure of an outcome stands at the position that goes with it. -/
def Points (text : List Char) (outcome : Except (Failure × Nat) TypeRef) : Prop :=
  ∀ e pos, outcome = .error (e, pos) → restAt? text pos = some e.rest

theorem exists_parses (text : List Char) :
    ∃ outcome, Parses text outcome ∧ readAll text = outcome.mapError Prod.fst ∧
      Points text outcome := by
  obtain ⟨ending, run, located⟩ := runsTo_type (restAt?_zero text)
  unfold readAll
  rw [← read]
  cases hread : read text with
  | error e =>
    rw [hread] at located
    cases located with
    | failed here =>
      refine ⟨_, .refused run, rfl, ?_⟩
      intro f pos same
      cases same
      exact here
  | ok found =>
    obtain ⟨t, rest⟩ := found
    rw [hread] at located
    cases located with
    | found here same =>
      obtain ⟨p, skipped, there⟩ := skip?_spec here
      rw [same] at there
      cases hrest : trimStart rest with
      | nil =>
        obtain ⟨before, eq, size⟩ := restAt?_eq_some_iff.mp there
        rw [hrest, List.append_nil] at eq
        subst eq
        rw [← size] at skipped
        exact ⟨_, .whole run skipped, by simp only [hrest]; rfl, fun e pos same => by cases same⟩
      | cons c next =>
        have inside : p ≠ byteLength text := by
          intro last
          have ending := restAt?_byteLength text []
          rw [List.append_nil, ← last, there, hrest] at ending
          cases ending
        rw [hrest] at there
        refine ⟨_, .unexpected run skipped inside there, by simp only [hrest]; rfl, ?_⟩
        intro e pos same
        cases same
        exact there

/-- How a text is read. -/
structure ReadsExactly (text : String) : Prop where
  /-- Going by byte positions there is one way to the end, and it is the one that is taken: no
  cut is outside of the text or inside of a character. -/
  ends : ∃ outcome, (∀ other, Parses text.toList other ↔ other = outcome) ∧
    parse text = outcome.mapError fun e => ⟨text, e.1⟩
  accepts : ∀ t, parse text = .ok t ↔ Writes text.toList t
  textual : ∀ t, parse text = .ok t → t.isTextual = true ∧ parse t.display = .ok t
  /-- A failure is reported at a position of the text, where its rest begins. -/
  located : ∀ e, parse text = .error e →
    e.offset ≤ text.utf8ByteSize ∧ restAt? text.toList e.offset = some e.failure.rest

/-- How an occurrence is read from its text. -/
structure WritesExactly (t : TypeRef) : Prop where
  displayed : parse t.display = .ok t
  loosened : ∀ loose, Loosened t.display.toList loose → parse (String.ofList loose) = .ok t

theorem readsExactly (text : String) : ReadsExactly text := by
  obtain ⟨outcome, run, same, points⟩ := exists_parses text.toList
  have parsed : parse text = outcome.mapError fun e => ⟨text, e.1⟩ := by
    rw [parse, same]
    cases outcome <;> rfl
  constructor
  · refine ⟨outcome, ?_, parsed⟩
    intro other
    constructor
    · intro run'
      exact run'.unique run
    · rintro rfl
      exact run
  · intro t
    exact parse_eq_ok_iff
  · intro t h
    have textual := (parse_eq_ok_iff.mp h).isTextual
    exact ⟨textual, parse_display textual⟩
  · intro e h
    rw [parsed] at h
    cases outcome with
    | ok t => cases h
    | error f =>
      cases h
      have here := points f.1 f.2 rfl
      have offset := offset_eq here
      obtain ⟨before, eq, size⟩ := restAt?_eq_some_iff.mp here
      have total := congrArg byteLength eq
      rw [byteLength_append, byteLength_toList] at total
      change (Invalid.mk text f.1).offset ≤ _ ∧ restAt? _ (Invalid.mk text f.1).offset = _
      rw [offset]
      exact ⟨by omega, here⟩

theorem writesExactly (h : t.isTextual = true) : WritesExactly t := by
  constructor
  · exact parse_display h
  · intro loose hloose
    rw [display, String.toList_ofList] at hloose
    rw [parse_eq_ok_iff, String.toList_ofList]
    exact writes_of_loosened h hloose

/-- Every text is read exactly, and so is every occurrence that has a text. -/
theorem parse_exact (text : String) (t : TypeRef) :
    ReadsExactly text ∧ (t.isTextual = true → WritesExactly t) :=
  ⟨readsExactly text, writesExactly⟩

/-- A page of bounded orders, and a text that ends too early. -/
theorem parse_exact_page :
    ReadsExactly "page<? extends" ∧
      (TypeRef.array (.generic "page" [.wildcard [.plain "order"]])).isTextual = true ∧
      WritesExactly (.array (.generic "page" [.wildcard [.plain "order"]])) := by
  have textual :
      (TypeRef.array (.generic "page" [.wildcard [.plain "order"]])).isTextual = true := by decide
  obtain ⟨reads, writes⟩ :=
    parse_exact "page<? extends" (.array (.generic "page" [.wildcard [.plain "order"]]))
  exact ⟨reads, textual, writes textual⟩

end TypeRef

end Schemata
