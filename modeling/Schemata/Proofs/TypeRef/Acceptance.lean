import Schemata.Proofs.TypeRef.Grammar
import Schemata.Proofs.TypeRef.Reading

/-!
# What is read is what the grammar says

A text is read as an occurrence exactly when the grammar relates the two, so that no text is
that of two occurrences.  One direction follows the reader through the text; the other follows
the grammar and has to know what comes after an occurrence, since a name goes on as long as it
can and array marks are taken as long as there are any.
-/
namespace Schemata

namespace TypeRef

open Text

variable {text rest gap : List Char} {t : TypeRef} {ts : List TypeRef} {name : String}

/-! ### What is read has the text that was taken for it -/

/-- The text of a phrase stands before the rest, with blanks between them. -/
def Takes (p : Phrase) (text rest : List Char) : Prop :=
  ∃ taken gap, text = taken ++ (gap ++ rest) ∧ AllBlank gap ∧ Spells p taken

theorem read_append (h : AllBlank gap) : read (gap ++ text) = read text := by
  rw [read_eq, read_eq text, readWith, readWith, trimStart_append h]

theorem marks_append (h : AllBlank gap) : marks t (gap ++ text) = marks t text := by
  have same : trimStart (gap ++ text) = trimStart text := trimStart_append h
  by_cases mark : ∃ after, trimStart text = '[' :: ']' :: after
  · obtain ⟨after, hafter⟩ := mark
    rw [marks_of_mark t hafter, marks_of_mark t (same.trans hafter)]
  · have ending (after : List Char) : trimStart text ≠ '[' :: ']' :: after :=
      fun hafter => mark ⟨after, hafter⟩
    rw [marks_of_end t ending, marks_of_end t (by rwa [same]), same]

theorem keyword?_eq_some_iff {word after : List Char} :
    keyword? word text = some after ↔
      trimStart text = word ++ after ∧ ∀ c next, after = c :: next → isBlank c = true := by
  rw [keyword?, Option.filter_eq_some_iff, dropBeginning?_eq_some_iff]
  cases after with
  | nil => simp
  | cons c next => simp

/-- What a word announces stands after a blank. -/
theorem takes_of_keyword? {word after : List Char} (hword : keyword? word text = some after)
    (hread : read after = .ok (t, rest))
    (ih : ∀ shorter, shorter.length < text.length → read shorter = .ok (t, rest) →
      Takes (.type t) shorter rest) :
    ∃ gap c next, text = gap ++ (word ++ c :: next) ∧ AllBlank gap ∧ isBlank c = true ∧
      Takes (.type t) next rest := by
  obtain ⟨trimmed, blank⟩ := keyword?_eq_some_iff.mp hword
  obtain ⟨gap, hgap, eq⟩ := exists_trimStart text
  cases after with
  | nil => cases hread
  | cons c next =>
    have space := blank c next rfl
    rw [← List.singleton_append, read_append (by simpa [AllBlank] using space)] at hread
    rw [trimmed] at eq
    have shorter : next.length < text.length := by
      have size := congrArg List.length eq
      simp only [List.length_append, List.length_cons] at size
      omega
    exact ⟨gap, c, next, eq, hgap, space, ih next shorter hread⟩

theorem spells_of_marks {taken : List Char} (type : Spells (.type t) taken)
    (bounded : t.isWildcard = false) {marked : TypeRef} (h : marks t text = (marked, rest)) :
    ∃ more gap, text = more ++ (gap ++ rest) ∧ AllBlank gap ∧
      Spells (.type marked) (taken ++ more) := by
  induction hn : text.length using Nat.strongRecOn generalizing t taken text with
  | ind n ih =>
    obtain ⟨gap, blank, eq⟩ := exists_trimStart text
    by_cases mark : ∃ after, trimStart text = '[' :: ']' :: after
    · obtain ⟨after, hafter⟩ := mark
      rw [marks_of_mark t hafter] at h
      have shorter := length_lt_of_trimStart hafter
      simp only [List.length_cons] at shorter
      obtain ⟨more, last, eq', blank', whole⟩ :=
        ih after.length (by omega) (type.array bounded blank) rfl h rfl
      rw [hafter, eq'] at eq
      rw [List.append_assoc] at whole
      exact ⟨gap ++ ['[', ']'] ++ more, last, by simp [eq], blank', by simpa using whole⟩
    · rw [marks_of_end t fun after hafter => mark ⟨after, hafter⟩] at h
      cases h
      exact ⟨[], gap, eq, blank, by rw [List.append_nil]; exact type⟩

theorem spells_of_arguments {size : Nat}
    (ih : ∀ text : List Char, text.length < size → ∀ t rest, read text = .ok (t, rest) →
      Takes (.type t) text rest)
    (hsize : text.length < size) {done args : List TypeRef}
    (h : arguments done text = .ok (args, rest)) :
    ∃ ts taken, text = taken ++ '>' :: rest ∧ args = done.reverse ++ ts ∧
      Spells (.args ts) taken := by
  -- Each round goes on behind a comma; what it reads itself is settled by the outer hypothesis.
  induction hn : text.length using Nat.strongRecOn generalizing done text with
  | ind n ihn =>
    cases hread : read text with
    | error e =>
      rw [arguments_of_error done hread] at h
      cases h
    | ok found =>
      obtain ⟨arg, after⟩ := found
      obtain ⟨taken, gap, eq, blank, type⟩ := ih text hsize arg after hread
      obtain ⟨before, blank', eq'⟩ := exists_trimStart after
      have shorter := readsLess_read text arg after hread
      by_cases comma : ∃ next, trimStart after = ',' :: next
      · obtain ⟨next, hnext⟩ := comma
        rw [arguments_of_comma done hread hnext] at h
        have later := length_lt_of_trimStart hnext
        obtain ⟨ts, others, eqNext, eqArgs, inner⟩ :=
          ihn next.length (by omega) (by omega) h rfl
        rw [hnext, eqNext] at eq'
        refine ⟨arg :: ts, _, ?_, ?_, type.more (blank.append blank') inner⟩
        · rw [eq, eq']
          simp
        · rw [eqArgs, List.reverse_cons, List.append_assoc, List.singleton_append]
      · by_cases closing : ∃ next, trimStart after = '>' :: next
        · obtain ⟨next, hnext⟩ := closing
          rw [arguments_of_end done hread hnext] at h
          cases h
          rw [hnext] at eq'
          refine ⟨[arg], _, ?_, ?_, type.last (blank.append blank')⟩
          · rw [eq, eq']
            simp
          · rw [List.reverse_cons]
        · rw [arguments_of_other done hread (fun next hn => comma ⟨next, hn⟩)
            (fun next hn => closing ⟨next, hn⟩)] at h
          cases h

/-- A name is what stands before the first character that no name has. -/
theorem isName_takeWhile (h : (text.takeWhile isNameChar).isEmpty = false) :
    isName (String.ofList (text.takeWhile isNameChar)) = true := by
  simp only [isName, String.toList_ofList, h, Bool.not_false, Bool.true_and, List.all_takeWhile]

section Soundness

/-! Texts that are shorter than the one at hand are known to be those of what they read as. -/

variable {size : Nat}
  (shorter : ∀ text : List Char, text.length < size → ∀ t rest, read text = .ok (t, rest) →
    Takes (.type t) text rest)

include shorter

theorem spells_of_readWildcard (hsize : text.length < size)
    (h : readWildcard read text = .ok (t, rest)) : Takes (.type t) ('?' :: text) rest := by
  have inner (after : List Char) (less : after.length < text.length) {s : TypeRef}
      (hread : read after = .ok (s, rest)) : Takes (.type s) after rest :=
    shorter after (by omega) s rest hread
  rw [readWildcard] at h
  split at h
  · rename_i after hword
    cases hread : read after with
    | error e =>
      rw [hread] at h
      cases h
    | ok found =>
      rw [hread] at h
      cases h
      obtain ⟨gap, c, next, eq, blank, space, taken, last, eq', blank', type⟩ :=
        takes_of_keyword? hword hread fun after less => inner after less
      refine ⟨_, last, ?_, blank', type.upper blank space⟩
      rw [eq, eq']
      simp
  · split at h
    · rename_i after hword
      cases hread : read after with
      | error e =>
        rw [hread] at h
        cases h
      | ok found =>
        rw [hread] at h
        cases h
        obtain ⟨gap, c, next, eq, blank, space, taken, last, eq', blank', type⟩ :=
          takes_of_keyword? hword hread fun after less => inner after less
        refine ⟨_, last, ?_, blank', type.lower blank space⟩
        rw [eq, eq']
        simp
    · cases h
      exact ⟨['?'], [], rfl, allBlank_nil, .unbounded⟩

theorem spells_of_readNamed (hsize : text.length ≤ size)
    (h : readNamed read text = .ok (t, rest)) : Takes (.type t) text rest := by
  have cut := List.takeWhile_append_dropWhile (p := isNameChar) (l := text)
  obtain ⟨gap, blank, eq⟩ := exists_trimStart (text.dropWhile isNameChar)
  rw [readNamed_read] at h
  split at h
  · cases h
  · rename_i named
    have hname := isName_takeWhile (eq_false_of_ne_true named)
    split at h
    · rename_i next hmark
      rw [hmark] at eq
      rw [eq] at cut
      have less : next.length < size := by
        have total := congrArg List.length cut
        simp only [List.length_append, List.length_cons] at total
        omega
      split at h
      · cases h
      · rename_i args after hargs
        obtain ⟨ts, taken, eqNext, eqArgs, inner⟩ := spells_of_arguments shorter less hargs
        rw [List.reverse_nil, List.nil_append] at eqArgs
        subst eqArgs
        have type := inner.generic hname blank
        obtain ⟨more, last, eqAfter, blank', whole⟩ :=
          spells_of_marks type rfl (Except.ok.inj h)
        rw [eqNext, eqAfter] at cut
        rw [String.toList_ofList] at whole
        exact ⟨_, last, by simpa using cut.symm, blank', whole⟩
    · rw [← marks_append blank, ← eq] at h
      obtain ⟨more, last, eqAfter, blank', whole⟩ :=
        spells_of_marks (.plain hname) rfl (Except.ok.inj h)
      rw [eqAfter] at cut
      rw [String.toList_ofList] at whole
      exact ⟨_, last, by simpa using cut.symm, blank', whole⟩

end Soundness

theorem spells_of_read (h : read text = .ok (t, rest)) : Takes (.type t) text rest := by
  induction hn : text.length using Nat.strongRecOn generalizing text t rest with
  | ind n ih =>
    obtain ⟨lead, blank, eq⟩ := exists_trimStart text
    have shorter (less : List Char) (hs : less.length < n) (s : TypeRef) (after : List Char)
        (hread : read less = .ok (s, after)) : Takes (.type s) less after :=
      ih less.length hs hread rfl
    have trimmed := length_trimStart_le text
    rw [read_eq, readWith] at h
    have found : Takes (.type t) (trimStart text) rest := by
      split at h
      · rename_i body hmark
        have less := length_lt_of_trimStart hmark
        rw [hmark]
        exact spells_of_readWildcard shorter (by omega) h
      · exact spells_of_readNamed shorter (by omega) h
    obtain ⟨taken, gap, eq', blank', type⟩ := found
    refine ⟨lead ++ taken, gap, ?_, blank', type.lead blank⟩
    rw [eq, eq', List.append_assoc]

/-! ### What has a text is read from it -/

/-- No name goes on here, and no arguments follow. -/
def EndsName (rest : List Char) : Prop :=
  (∀ c next, rest = c :: next → isNameChar c = false) ∧ ∀ next, trimStart rest ≠ '<' :: next

/-- Only the end of an argument, or of the text, follows. -/
def EndsType (rest : List Char) : Prop :=
  ∀ c next, trimStart rest = c :: next → c = ',' ∨ c = '>'

theorem isNameChar_head {c : Char} {next : List Char} (blank : AllBlank gap)
    (h : gap ++ rest = c :: next) (ends : ∀ d later, rest = d :: later → isNameChar d = false) :
    isNameChar c = false := by
  cases gap with
  | nil => exact ends c next h
  | cons d gap =>
    rw [List.cons_append, List.cons.injEq] at h
    rw [← h.1]
    exact isNameChar_of_isBlank (blank d List.mem_cons_self)

theorem EndsType.endsName (h : EndsType rest) : EndsName rest := by
  obtain ⟨gap, blank, eq⟩ := exists_trimStart rest
  constructor
  · intro c next hc
    rw [eq] at hc
    apply isNameChar_head blank hc
    intro d later hd
    rcases h d later hd with rfl | rfl <;> decide
  · intro next hnext
    rcases h '<' next hnext with same | same <;> exact absurd same (by decide)

theorem endsName_mark (rest : List Char) (blank : AllBlank gap) : EndsName (gap ++ '[' :: ']' :: rest) := by
  constructor
  · intro c next hc
    apply isNameChar_head blank hc
    intro d later hd
    rw [← (List.cons.inj hd).1]
    decide
  · intro next hnext
    rw [trimStart_append blank, trimStart_cons_of_not_blank (by decide)] at hnext
    exact absurd (List.cons.inj hnext).1 (by decide)

theorem marks_trimStart : marks t (trimStart rest) = marks t rest := by
  obtain ⟨gap, blank, eq⟩ := exists_trimStart rest
  have same : marks t (gap ++ trimStart rest) = marks t (trimStart rest) := marks_append blank
  rw [← same, ← eq]

theorem read_name (named : isName name = true)
    (ends : ∀ c next, rest = c :: next → isNameChar c = false) :
    read (name.toList ++ rest) =
      match trimStart rest with
      | '<' :: next =>
        match arguments [] next with
        | .error e => .error e
        | .ok (args, after) => .ok (marks (generic name args) after)
      | other => .ok (marks (plain name) other) := by
  simp only [isName, Bool.and_eq_true, Bool.not_eq_true', List.all_eq_true] at named
  obtain ⟨some, all⟩ := named
  have stop : rest.takeWhile isNameChar = [] ∧ rest.dropWhile isNameChar = rest := by
    cases rest with
    | nil => exact ⟨rfl, rfl⟩
    | cons c next => simp [ends c next rfl]
  have taken : (name.toList ++ rest).takeWhile isNameChar = name.toList := by
    rw [List.takeWhile_append_of_pos all, stop.1, List.append_nil]
  have dropped : (name.toList ++ rest).dropWhile isNameChar = rest := by
    rw [List.dropWhile_append_of_pos all, stop.2]
  rw [read_eq, readWith]
  cases hname : name.toList with
  | nil =>
    rw [hname] at some
    cases some
  | cons c others =>
    have hc : isNameChar c = true := all c (by rw [hname]; exact List.mem_cons_self)
    -- A name starts with no blank, so that nothing is cut off before it.
    have visible : isBlank c = false := by
      cases hb : isBlank c with
      | false => rfl
      | true => rw [isNameChar_of_isBlank hb] at hc; cases hc
    rw [List.cons_append, trimStart_cons_of_not_blank visible]
    split
    · rename_i body hmark
      rw [(List.cons.inj hmark).1] at hc
      exact absurd hc (by decide)
    · rw [← List.cons_append, ← hname, readNamed_read, taken, dropped, some,
        String.ofList_toList]
      rfl

theorem read_plain (named : isName name = true) (ends : EndsName rest) :
    read (name.toList ++ rest) = .ok (marks (plain name) rest) := by
  rw [read_name named ends.1]
  split
  · rename_i next hmark
    exact absurd hmark (ends.2 next)
  · rw [marks_trimStart]

theorem read_generic (named : isName name = true) (blank : AllBlank gap)
    (h : arguments [] text = .ok (ts, rest)) :
    read (name.toList ++ (gap ++ '<' :: text)) = .ok (marks (generic name ts) rest) := by
  have stop (c : Char) (next : List Char) (hc : gap ++ '<' :: text = c :: next) :
      isNameChar c = false := by
    apply isNameChar_head blank hc
    intro d later hd
    rw [← (List.cons.inj hd).1]
    decide
  rw [read_name named stop, trimStart_append blank, trimStart_cons_of_not_blank (by decide)]
  simp only [h]

theorem marks_of_endsType (ends : EndsType rest) : marks t rest = (t, trimStart rest) := by
  apply marks_of_end
  intro after hafter
  rcases ends '[' _ hafter with same | same <;> exact absurd same (by decide)

/-- What reading a text of the phrase comes to, whatever follows it.  A wildcard takes no array
marks, so that its end has to be seen. -/
def ReadsBack : Phrase → List Char → Prop
  | .type t, text =>
    (t.isWildcard = false → ∀ rest, EndsName rest → read (text ++ rest) = .ok (marks t rest))
    ∧ ∀ rest, EndsType rest →
        ∃ after, read (text ++ rest) = .ok (t, after) ∧ trimStart after = trimStart rest
  | .args ts, text =>
    ∀ done rest, arguments done (text ++ '>' :: rest) = .ok (done.reverse ++ ts, rest)

/-- Without a wildcard the end of the occurrence is where the array marks end. -/
theorem readsBack_of_marks
    (h : ∀ rest, EndsName rest → read (text ++ rest) = .ok (marks t rest)) :
    ReadsBack (.type t) text := by
  constructor
  · intro bounded
    exact h
  · intro rest ends
    refine ⟨trimStart rest, ?_, trimStart_trimStart rest⟩
    rw [h rest ends.endsName, marks_of_endsType ends]

theorem readsBack_of_wildcard (wildcard : t.isWildcard = true)
    (h : ∀ rest, EndsType rest →
      ∃ after, read (text ++ rest) = .ok (t, after) ∧ trimStart after = trimStart rest) :
    ReadsBack (.type t) text := by
  constructor
  · intro bounded
    rw [wildcard] at bounded
    cases bounded
  · exact h

theorem endsType_comma (rest : List Char) (blank : AllBlank gap) : EndsType (gap ++ ',' :: rest) := by
  intro c next hc
  rw [trimStart_append blank, trimStart_cons_of_not_blank (by decide)] at hc
  exact .inl (List.cons.inj hc).1.symm

theorem endsType_end (rest : List Char) (blank : AllBlank gap) : EndsType (gap ++ '>' :: rest) := by
  intro c next hc
  rw [trimStart_append blank, trimStart_cons_of_not_blank (by decide)] at hc
  exact .inr (List.cons.inj hc).1.symm

theorem toList_extends : "extends".toList = ['e', 'x', 't', 'e', 'n', 'd', 's'] := by decide

theorem toList_super : "super".toList = ['s', 'u', 'p', 'e', 'r'] := by decide

theorem keyword?_append {word : List Char} {c : Char} (blank : AllBlank gap)
    (space : isBlank c = true) (visible : trimStart (word ++ c :: rest) = word ++ c :: rest) :
    keyword? word (gap ++ (word ++ c :: rest)) = some (c :: rest) := by
  rw [keyword?_eq_some_iff, trimStart_append blank, visible]
  refine ⟨rfl, ?_⟩
  intro d next hd
  rw [← (List.cons.inj hd).1]
  exact space

theorem keyword?_eq_none {word : List Char} {c d : Char} {next : List Char}
    (h : trimStart text = d :: next) (other : d ≠ c) : keyword? (c :: word) text = none := by
  rw [Option.eq_none_iff_forall_ne_some]
  intro after hafter
  obtain ⟨trimmed, -⟩ := keyword?_eq_some_iff.mp hafter
  rw [h, List.cons_append] at trimmed
  exact other (List.cons.inj trimmed).1

theorem keyword?_nil {word : List Char} {c : Char} (h : trimStart text = []) :
    keyword? (c :: word) text = none := by
  rw [Option.eq_none_iff_forall_ne_some]
  intro after hafter
  obtain ⟨trimmed, -⟩ := keyword?_eq_some_iff.mp hafter
  rw [h] at trimmed
  cases trimmed

theorem read_mark : read ('?' :: text) = readWildcard read text := by
  rw [read_eq, readWith, trimStart_cons_of_not_blank (by decide)]
  rfl

theorem read_upper {c : Char} (blank : AllBlank gap) (space : isBlank c = true)
    (h : read rest = .ok (t, text)) :
    read ('?' :: (gap ++ ("extends".toList ++ c :: rest))) = .ok (.wildcard [t], text) := by
  have word : keyword? "extends".toList (gap ++ ("extends".toList ++ c :: rest)) =
      some (c :: rest) := by
    apply keyword?_append blank space
    rw [toList_extends]
    exact trimStart_cons_of_not_blank (by decide)
  have inner : read (c :: rest) = .ok (t, text) := by
    rw [← List.singleton_append, read_append (allBlank_nil.cons space), h]
  rw [read_mark, readWildcard, word]
  dsimp only
  rw [inner]
  rfl

theorem read_lower {c : Char} (blank : AllBlank gap) (space : isBlank c = true)
    (h : read rest = .ok (t, text)) :
    read ('?' :: (gap ++ ("super".toList ++ c :: rest))) = .ok (.wildcard [], text) := by
  have visible : trimStart ("super".toList ++ c :: rest) = "super".toList ++ c :: rest := by
    rw [toList_super]
    exact trimStart_cons_of_not_blank (by decide)
  have word : keyword? "super".toList (gap ++ ("super".toList ++ c :: rest)) = some (c :: rest) :=
    keyword?_append blank space visible
  have other : keyword? "extends".toList (gap ++ ("super".toList ++ c :: rest)) = none := by
    rw [← trimStart_append blank, toList_super] at visible
    rw [toList_extends, toList_super]
    exact keyword?_eq_none visible (by decide)
  have inner : read (c :: rest) = .ok (t, text) := by
    rw [← List.singleton_append, read_append (allBlank_nil.cons space), h]
  rw [read_mark, readWildcard, other]
  dsimp only
  rw [word]
  dsimp only
  rw [inner]
  rfl

theorem read_unbounded (ends : EndsType rest) :
    read ('?' :: rest) = .ok (.wildcard [], rest) := by
  have noWord {c : Char} {word : List Char} (comma : ',' ≠ c) (closing : '>' ≠ c) :
      keyword? (c :: word) rest = none := by
    cases h : trimStart rest with
    | nil => exact keyword?_nil h
    | cons d next =>
      rcases ends d next h with rfl | rfl
      · exact keyword?_eq_none h comma
      · exact keyword?_eq_none h closing
  rw [read_mark, readWildcard, toList_extends, toList_super, noWord (by decide) (by decide)]
  dsimp only
  rw [noWord (by decide) (by decide)]

theorem Spells.readsBack {p : Phrase} (h : Spells p text) : ReadsBack p text := by
  -- A phrase is read back before anything that cannot continue it, such as the next mark.
  induction h with
  | lead blank type ih =>
    constructor
    · intro bounded rest ends
      rw [List.append_assoc, read_append blank]
      exact ih.1 bounded rest ends
    · intro rest ends
      rw [List.append_assoc, read_append blank]
      exact ih.2 rest ends
  | unbounded =>
    apply readsBack_of_wildcard rfl
    intro rest ends
    exact ⟨rest, read_unbounded ends, rfl⟩
  | upper blank space type ih =>
    apply readsBack_of_wildcard rfl
    intro rest ends
    obtain ⟨after, hread, trimmed⟩ := ih.2 rest ends
    exact ⟨after, by simpa using read_upper blank space hread, trimmed⟩
  | lower blank space type ih =>
    apply readsBack_of_wildcard rfl
    intro rest ends
    obtain ⟨after, hread, trimmed⟩ := ih.2 rest ends
    exact ⟨after, by simpa using read_lower blank space hread, trimmed⟩
  | plain named => exact readsBack_of_marks fun rest ends => read_plain named ends
  | generic named blank args ih =>
    apply readsBack_of_marks
    intro rest ends
    have inner := ih [] rest
    rw [List.reverse_nil, List.nil_append] at inner
    have whole := read_generic named blank inner
    simpa using whole
  | array type bounded blank ih =>
    apply readsBack_of_marks
    intro rest ends
    have inner := ih.1 bounded _ (endsName_mark rest blank)
    rw [marks_append blank, marks_of_mark _ (trimStart_cons_of_not_blank (by decide))] at inner
    simpa using inner
  | last type blank ih =>
    intro done rest
    obtain ⟨after, hread, trimmed⟩ := ih.2 _ (endsType_end rest blank)
    rw [trimStart_append blank, trimStart_cons_of_not_blank (by decide)] at trimmed
    rw [List.append_assoc, arguments_of_end done hread trimmed, List.reverse_cons]
  | more type blank args ih ihs =>
    intro done rest
    rename_i inner _ _
    obtain ⟨after, hread, trimmed⟩ := ih.2 _ (endsType_comma (inner ++ '>' :: rest) blank)
    rw [trimStart_append blank, trimStart_cons_of_not_blank (by decide)] at trimmed
    have whole := arguments_of_comma done hread trimmed
    rw [ihs] at whole
    simpa using whole

/-! ### Whole texts -/

/-- Reading accepts the texts of the grammar and no other. -/
theorem readAll_eq_ok_iff : readAll text = .ok t ↔ Writes text t := by
  constructor
  · intro h
    rw [readAll] at h
    split at h
    · cases h
    · rename_i found rest hread
      split at h
      · rename_i trimmed
        cases h
        obtain ⟨taken, gap, eq, blank, type⟩ := spells_of_read hread
        obtain ⟨last, blank', eq'⟩ := exists_trimStart rest
        rw [trimmed, List.append_nil] at eq'
        exact ⟨taken, gap ++ rest, eq, blank.append (by rwa [eq']), type⟩
      · cases h
  · rintro ⟨taken, gap, rfl, blank, type⟩
    have ends : EndsType gap := by
      intro c next hc
      rw [trimStart_of_allBlank blank] at hc
      cases hc
    obtain ⟨after, hread, trimmed⟩ := type.readsBack.2 gap ends
    rw [trimStart_of_allBlank blank] at trimmed
    rw [read] at hread
    simp only [readAll, hread, trimmed]

theorem parse_eq_ok_iff {text : String} : parse text = .ok t ↔ Writes text.toList t := by
  rw [← readAll_eq_ok_iff, parse]
  cases readAll text.toList with
  | error e => exact ⟨fun h => (by cases h), fun h => (by cases h)⟩
  | ok found =>
    change Except.ok found = .ok t ↔ _
    rw [Except.ok.injEq, Except.ok.injEq]

theorem parse_display (h : t.isTextual = true) : parse t.display = .ok t := by
  rw [parse_eq_ok_iff, display, String.toList_ofList]
  exact writes_of_spells (spells_write h)

end TypeRef

end Schemata
