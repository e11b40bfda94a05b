import Mathlib.Data.List.Induction
import Schemata.Proofs.DocText.Splitting

/-!
# Stray tags

A tag is stray when it begins with the word for parameters, but goes on as a longer word or names
nothing.  It is read for a parameter's tag all the same.  So a text and all that it begins with are
split at their tags as long as nothing stands under a stray tag.
-/
namespace Schemata

/-! ### Descriptions -/

namespace Text

/-- What is visible of a text. -/
def ink (text : List Char) : List Char := text.filter (!isBlank ·)

theorem ink_append (text more : List Char) : ink (text ++ more) = ink text ++ ink more :=
  List.filter_append ..

theorem ink_trimStart (text : List Char) : ink (trimStart text) = ink text := by
  obtain ⟨gap, blank, eq⟩ := exists_trimStart text
  have none : ink gap = [] := List.filter_eq_nil_iff.mpr fun c hc => by simp [blank c hc]
  have split := congrArg ink eq
  rw [ink_append, none, List.nil_append] at split
  exact split.symm

theorem ink_trim (text : List Char) : ink (trim text) = ink text := by
  have backward (text : List Char) : ink text.reverse = (ink text).reverse := List.filter_reverse ..
  rw [trim, trimEnd, backward, ← trimStart, ink_trimStart, backward, List.reverse_reverse,
    ink_trimStart]

theorem ink_intercalate (lines : List (List Char)) :
    ink (['\n'].intercalate lines) = lines.flatMap ink := by
  induction lines with
  | nil => rfl
  | cons line rest ih =>
    have newline : ink ['\n'] = [] := by decide
    by_cases last : rest = []
    · simp [last]
    · rw [List.intercalate_cons_of_ne_nil last, ink_append, ink_append, newline, ih,
        List.append_nil]
      rfl

/-- A last line that is empty adds the end of the line before it. -/
theorem intercalate_append_empty {lines : List (List Char)} (h : lines ≠ []) :
    ['\n'].intercalate (lines ++ [[]]) = ['\n'].intercalate lines ++ ['\n'] := by
  induction lines with
  | nil => exact absurd rfl h
  | cons line rest ih =>
    by_cases last : rest = []
    · simp [last]
    · rw [List.cons_append, List.intercalate_cons_of_ne_nil (by simp), ih last,
        List.intercalate_cons_of_ne_nil last, List.append_assoc _ _ ['\n']]

/-- A blank at the end is trimmed. -/
theorem trim_append_blank (text : List Char) {c : Char} (blank : isBlank c = true) :
    trim (text ++ [c]) = trim text := by
  rw [trim, trim, trimStart, trimStart, List.dropWhile_append]
  split
  · rename_i none
    rw [List.isEmpty_iff.mp none, List.dropWhile_cons_of_pos blank]
    rfl
  · rw [trimEnd, trimEnd, List.reverse_append, List.reverse_singleton, List.singleton_append,
      List.dropWhile_cons_of_pos blank]

/-- A text that begins and ends with no blank shows something. -/
theorem ink_ne_nil {text : List Char} (trimmed : trim text = text) (nonempty : text ≠ []) :
    ink text ≠ [] := by
  intro none
  have blank : AllBlank text := by
    intro c hc
    have := List.filter_eq_nil_iff.mp none c hc
    simpa using this
  rw [trim, trimStart_of_allBlank blank] at trimmed
  exact nonempty trimmed.symm

end Text

namespace DocText

variable {lines : List (List Char)} {line : List Char}

theorem trim_eq_of_described {others : List (List Char)} (h : described lines = described others) :
    Text.trim (['\n'].intercalate lines) = Text.trim (['\n'].intercalate others) := by
  unfold described at h
  dsimp only at h
  split at h
  · rename_i empty
    split at h
    · rename_i empty'
      rw [List.isEmpty_iff.mp empty, List.isEmpty_iff.mp empty']
    · cases h
  · split at h
    · cases h
    · exact String.ofList_injective (Option.some.inj h)

/-- A description that goes on is another one, if what it goes on with can be seen. -/
theorem described_append_ne (visible : Text.ink line ≠ []) :
    described (lines ++ [line]) ≠ described lines := by
  intro same
  have ink := congrArg Text.ink (trim_eq_of_described same)
  rw [Text.ink_trim, Text.ink_trim, Text.ink_intercalate, Text.ink_intercalate,
    List.flatMap_append, List.flatMap_singleton] at ink
  exact visible (List.append_right_eq_self.mp ink)

theorem described_append_empty (lines : List (List Char)) :
    described (lines ++ [[]]) = described lines := by
  have newline : Text.isBlank '\n' = true := by decide
  cases lines with
  | nil => rfl
  | cons line rest =>
    rw [described, described, Text.intercalate_append_empty (List.cons_ne_nil line rest),
      Text.trim_append_blank _ newline]

theorem described_append_replicate (lines : List (List Char)) (n : Nat) :
    described (lines ++ List.replicate n []) = described lines := by
  induction n with
  | zero => rw [List.replicate_zero, List.append_nil]
  | succ n ih => rw [List.replicate_succ', ← List.append_assoc, described_append_empty, ih]

/-- What is read of some lines. -/
def readOf (lines : List (List Char)) : State := State.after {} (lines.map Line.read)

/-- What the lines of a text come to. -/
def ofContents (lines : List (List Char)) : DocText := (readOf lines).doc

/-- A text is split at its tags, and so is all that it begins with. -/
def SplitsAtTags (lines : List (List Char)) : Prop :=
  ∀ before after, lines = before ++ after → ofContents before = splitAtTags before

/-! ### Stray tags -/

/-- A line that begins with the word for parameters but tells of none. -/
def IsStray (line : List Char) : Prop := parameterTag <+: line ∧ parameter? line = none

/-- The last tag of some lines. -/
def lastTag? (lines : List (List Char)) : Option (List Char) := lines.reverse.find? isTag

theorem isTag_of_isStray (h : IsStray line) : isTag line = true := by
  obtain ⟨⟨rest, rfl⟩, -⟩ := h
  rfl

/-- A stray tag is read as an entry, but should be read as any other tag. -/
theorem read_of_isStray (h : IsStray line) :
    (∃ name body, Line.read line = .param name body) ∧ Line.stated line = .otherTag := by
  constructor
  · obtain ⟨rest, whole⟩ := h.1
    rw [Line.read, Text.dropBeginning?_eq_some_iff.mpr whole.symm]
    exact ⟨_, _, rfl⟩
  · rw [Line.stated, h.2, isTag_of_isStray h]
    rfl

/-- Any other line is read as it should be. -/
theorem read_of_not_isStray (h : ¬ IsStray line) : Line.read line = Line.stated line := by
  unfold Line.stated
  cases stated : parameter? line with
  | some entry => exact (read_of_parameter? stated).1
  | none =>
    have other : Text.dropBeginning? parameterTag line = none := by
      cases found : Text.dropBeginning? parameterTag line with
      | none => rfl
      | some rest =>
        exact absurd ⟨⟨rest, (Text.dropBeginning?_eq_some_iff.mp found).symm⟩, stated⟩ h
    rw [Line.read, other]
    by_cases tag : line.head? = some '@'
    · simp [isTag, tag]
    · simp [isTag, tag]

/-! ### One line more -/

/-- How a line is read and how it should be. -/
inductive Reads (line : List Char) : Line → Line → Prop where
  | stray {name body : String} (stray : IsStray line) (tag : isTag line = true) :
      Reads line (.param name body) .otherTag
  | entry {name body : String} (stated : ¬ IsStray line) (named : name ≠ "")
      (tag : isTag line = true) : Reads line (.param name body) (.param name body)
  | other (stated : ¬ IsStray line) (tag : isTag line = true) : Reads line .otherTag .otherTag
  | text (untagged : isTag line = false) : Reads line (.text line) (.text line)

theorem reads (line : List Char) : Reads line (Line.read line) (Line.stated line) := by
  by_cases stray : IsStray line
  · obtain ⟨⟨name, body, read⟩, stated⟩ := read_of_isStray stray
    rw [read, stated]
    exact .stray stray (isTag_of_isStray stray)
  · rw [read_of_not_isStray stray]
    rcases stated_cases line with ⟨name, body, -, stated, named, tag⟩ | ⟨-, stated, tag⟩ |
      ⟨-, stated, tag⟩
    · rw [stated]
      exact .entry stray named tag
    · rw [stated]
      exact .other stray tag
    · rw [stated]
      exact .text tag

theorem current_next_text (s : State) (content : List Char) :
    (s.next (.text content)).current = s.current := by
  unfold State.next
  cases current : s.current with
  | description => rfl
  | nothing => exact current
  | param name =>
    dsimp only
    split
    · exact current
    · rfl

theorem isSome_next_text (s : State) (content : List Char) (name : String) :
    ((s.next (.text content)).params.get? name).isSome = (s.params.get? name).isSome := by
  unfold State.next
  cases s.current with
  | description => rfl
  | nothing => rfl
  | param name =>
    dsimp only
    split
    · rfl
    · rw [Assoc.get?_modify]
      split
      · rw [Option.isSome_map]
      · rfl

/-- The last tag, when a line has been added to others. -/
def tagAfter (last : Option (List Char)) (line : List Char) : Option (List Char) :=
  if isTag line then some line else last

/-- What is known of a reader and of one that reads every line as it should be: an open entry is
there, and something is open under a stray tag, but nothing should be. -/
structure Opens (last : Option (List Char)) (s t : State) : Prop where
  entry {name : String} : s.current = .param name → (s.params.get? name).isSome
  stray {tag : List Char} : last = some tag → IsStray tag →
    s.current ≠ .nothing ∧ t.current = .nothing
  tag : last ≠ none → t.current ≠ .description

variable {last : Option (List Char)} {s t : State} {l l' : Line}

theorem Opens.next (h : Opens last s t) (reads : Reads line l l') :
    Opens (tagAfter last line) (s.next l) (t.next l') := by
  unfold tagAfter
  cases reads with
  | @stray name body stray tag =>
    rw [tag]
    by_cases nameless : name = ""
    · rw [State.next, if_pos nameless]
      refine ⟨fun open_ => h.entry ?_, fun _ _ => ⟨?_, rfl⟩, fun _ none => by cases none⟩
      · dsimp only at open_
        split at open_
        · cases open_
        · exact open_
      · dsimp only
        split
        · exact fun none => by cases none
        · assumption
    · rw [State.next, if_neg nameless]
      refine ⟨fun open_ => ?_, fun _ _ => ⟨fun none => (by cases none), rfl⟩,
        fun _ none => by cases none⟩
      cases open_
      rw [Assoc.get?_insert_same, Option.isSome_some]
  | @entry name body stated named tag =>
    rw [tag, State.next, if_neg named, State.next, if_neg named]
    refine ⟨fun open_ => ?_, fun same stray => ?_, fun _ none => by cases none⟩
    · cases open_
      rw [Assoc.get?_insert_same, Option.isSome_some]
    · cases same
      exact absurd stray stated
  | other stated tag =>
    rw [tag]
    refine ⟨fun open_ => (by cases open_), fun same stray => ?_, fun _ none => by cases none⟩
    cases same
    exact absurd stray stated
  | text untagged =>
    rw [untagged, if_neg Bool.false_ne_true]
    refine ⟨fun open_ => ?_, fun same stray => ?_, fun tagged => ?_⟩
    · rw [current_next_text] at open_
      rw [isSome_next_text]
      exact h.entry open_
    · rw [current_next_text, current_next_text]
      exact h.stray same stray
    · rw [current_next_text]
      exact h.tag tagged

/-- Two readers agree, but for lines that cannot be seen and for what is open under a stray tag. -/
structure Agrees (last : Option (List Char)) (s t : State) : Prop where
  params : s.params = t.params
  current : (∀ tag, last = some tag → ¬ IsStray tag) → s.current = t.current
  lines : ∃ blanks, s.lines = t.lines ++ List.replicate blanks [] ∧
    (t.current = .description → blanks = 0)

theorem Agrees.doc (h : Agrees last s t) : s.doc = t.doc := by
  obtain ⟨blanks, more, -⟩ := h.lines
  rw [State.doc, State.doc, more, h.params, described_append_replicate]

/-- A line that is clear of the last tag and of what is said already. -/
structure ClearOf (last : Option (List Char)) (params : Assoc String String) (line : List Char) :
    Prop where
  text : isTag line = false → line ≠ [] → ∀ tag, last = some tag → ¬ IsStray tag
  tag : IsStray line → ∀ name body, Line.read line = .param name body → name ≠ "" →
    params.get? name = some body

/-- An empty line under a stray tag changes nothing that can be seen. -/
theorem Agrees.next_empty (h : Agrees last s t) (closed : t.current = .nothing)
    (stray : ¬ ∀ tag, last = some tag → ¬ IsStray tag) :
    Agrees last (s.next (.text [])) (t.next (.text [])) := by
  obtain ⟨blanks, more, -⟩ := h.lines
  have stays : t.next (.text []) = t := by rw [State.next, closed]
  have ended : t.current = .description → ∀ n : Nat, n = 0 := fun open_ => by
    rw [closed] at open_
    cases open_
  rw [stays, State.next]
  cases s.current with
  | description =>
    refine ⟨h.params, fun clear => absurd clear stray, blanks + 1, ?_, fun open_ => ended open_ _⟩
    dsimp only
    rw [more, List.replicate_succ', List.append_assoc]
  | nothing => exact ⟨h.params, fun clear => absurd clear stray, blanks, more, (ended · _)⟩
  | param name => exact ⟨h.params, fun clear => absurd clear stray, blanks, more, (ended · _)⟩

/-- Readers that are open at the same place go on alike. -/
theorem Agrees.next_text (h : Agrees last s t) (clear : ∀ tag, last = some tag → ¬ IsStray tag)
    (content : List Char) : Agrees last (s.next (.text content)) (t.next (.text content)) := by
  obtain ⟨blanks, more, aligned⟩ := h.lines
  have same := h.current clear
  refine ⟨?_, fun _ => by rw [current_next_text, current_next_text, same], ?_⟩
  · rw [State.next, State.next, same]
    cases t.current with
    | description => exact h.params
    | nothing => exact h.params
    | param name =>
      dsimp only
      split
      · exact h.params
      · rw [h.params]
  · rw [current_next_text, State.next, State.next, same]
    cases open_ : t.current with
    | description =>
      obtain rfl := aligned open_
      rw [List.replicate_zero, List.append_nil] at more
      exact ⟨0, by simp [more], fun _ => rfl⟩
    | nothing => exact ⟨blanks, more, fun none => by cases none⟩
    | param name =>
      refine ⟨blanks, ?_, fun none => by cases none⟩
      dsimp only
      split
      · exact more
      · exact more

theorem Agrees.next (opens : Opens last s t) (h : Agrees last s t)
    (clear : ClearOf last s.params line) :
    Agrees (tagAfter last line) (s.next (Line.read line)) (t.next (Line.stated line)) := by
  have reads := reads line
  have kept := clear.tag
  unfold tagAfter
  generalize Line.read line = l, Line.stated line = l' at reads kept
  cases reads with
  | @stray name body stray tag =>
    obtain ⟨blanks, more, -⟩ := h.lines
    rw [tag]
    have open_ (current : Section) : Agrees (some line) { s with current := current }
        (t.next .otherTag) :=
      ⟨h.params, fun clear => absurd stray (clear line rfl), blanks, more,
        fun none => by cases none⟩
    by_cases nameless : name = ""
    · rw [State.next, if_pos nameless]
      exact open_ _
    · have same := Assoc.insert_of_get? (kept stray name body rfl nameless)
      rw [State.next, if_neg nameless, same]
      exact open_ _
  | @entry name body stated named tag =>
    obtain ⟨blanks, more, -⟩ := h.lines
    rw [tag, State.next, if_neg named, State.next, if_neg named, h.params]
    exact ⟨rfl, fun _ => rfl, blanks, more, fun none => by cases none⟩
  | other stated tag =>
    obtain ⟨blanks, more, -⟩ := h.lines
    rw [tag]
    exact ⟨h.params, fun _ => rfl, blanks, more, fun none => by cases none⟩
  | text untagged =>
    rw [untagged, if_neg Bool.false_ne_true]
    by_cases stray : ∃ tag, last = some tag ∧ IsStray tag
    · obtain ⟨tag, same, stray⟩ := stray
      have empty : line = [] := by
        by_contra visible
        exact clear.text untagged visible tag same stray
      rw [empty]
      exact h.next_empty (opens.stray same stray).2 fun clear => clear tag same stray
    · exact h.next_text (fun tag same isStray => stray ⟨tag, same, isStray⟩) line

/-! ### All lines -/

theorem readOf_append (lines : List (List Char)) (line : List Char) :
    readOf (lines ++ [line]) = (readOf lines).next (Line.read line) := by
  simp [readOf, State.after]

theorem statedOf_append (lines : List (List Char)) (line : List Char) :
    statedOf (lines ++ [line]) = (statedOf lines).next (Line.stated line) := by
  simp [statedOf, State.after]

theorem lastTag?_append (lines : List (List Char)) (line : List Char) :
    lastTag? (lines ++ [line]) = tagAfter (lastTag? lines) line := by
  rw [lastTag?, List.reverse_append, List.reverse_singleton, List.singleton_append,
    List.find?_cons, tagAfter, lastTag?]
  cases isTag line <;> rfl

theorem opens (lines : List (List Char)) :
    Opens (lastTag? lines) (readOf lines) (statedOf lines) := by
  induction lines using List.reverseRecOn with
  | nil => exact ⟨fun open_ => (by cases open_), fun same => (by cases same), absurd rfl⟩
  | append_singleton lines line ih =>
    rw [lastTag?_append, readOf_append, statedOf_append]
    exact ih.next (reads line)

/-- A line stands clear of the lines before it. -/
def IsClear (before : List (List Char)) (line : List Char) : Prop :=
  ClearOf (lastTag? before) (ofContents before).params line

theorem agrees_of_clear
    (clear : ∀ before line after, lines = before ++ line :: after → IsClear before line) :
    Agrees (lastTag? lines) (readOf lines) (statedOf lines) := by
  -- by the last line: what stands before it is clear as well
  induction lines using List.reverseRecOn with
  | nil => exact ⟨rfl, fun _ => rfl, 0, rfl, fun _ => rfl⟩
  | append_singleton lines line ih =>
    have before := ih fun before content after split =>
      clear before content (after ++ [line]) (by rw [split]; simp)
    rw [lastTag?_append, readOf_append, statedOf_append]
    exact before.next (opens lines) (clear lines line [] rfl)

theorem extend_ne (visible : line ≠ []) (body : String) : extend line body ≠ body := by
  unfold extend
  intro same
  split at same
  · rename_i empty
    rw [empty] at same
    exact visible (String.ofList_injective same)
  · have length := congrArg String.length same
    have space : " ".length = 1 := rfl
    rw [String.length_append, String.length_append, space] at length
    omega

/-- A line after which nothing else is told than should be is clear, if nothing else was told
before. -/
theorem clearOf_of_doc (opens : Opens last s t) (trimmed : Text.trim line = line)
    (before : s.doc = t.doc)
    (after : (s.next (Line.read line)).doc = (t.next (Line.stated line)).doc) :
    ClearOf last s.params line := by
  have reads := reads line
  constructor
  · intro untagged visible tag same stray
    obtain ⟨open_, closed⟩ := opens.stray same stray
    generalize Line.read line = l, Line.stated line = l' at reads after
    cases reads with
    | stray _ tagged => exact absurd (untagged.symm.trans tagged) (by decide)
    | entry _ _ tagged => exact absurd (untagged.symm.trans tagged) (by decide)
    | other _ tagged => exact absurd (untagged.symm.trans tagged) (by decide)
    | text =>
      have stays : t.next (.text line) = t := by rw [State.next, closed]
      rw [stays, ← before, State.next] at after
      cases current : s.current with
      | nothing => exact open_ current
      | description =>
        rw [current] at after
        exact described_append_ne (Text.ink_ne_nil trimmed visible)
          (congrArg DocText.description after)
      | param name =>
        rw [current] at after
        dsimp only at after
        rw [if_neg (by simpa using visible)] at after
        obtain ⟨body, found⟩ := Option.isSome_iff_exists.mp (opens.entry current)
        have entry := congrArg (fun d : DocText => d.params.get? name) after
        simp only [State.doc, Assoc.get?_modify, found, Option.map_some] at entry
        exact extend_ne visible body (Option.some.inj entry)
  · intro stray name body read named
    rw [read, (read_of_isStray stray).2] at after
    have params := congrArg DocText.params (after.trans before.symm)
    rw [State.next, if_neg named] at params
    have entry := congrArg (Assoc.get? · name) params
    exact entry.symm.trans (Assoc.get?_insert_same _ name body)

/-- Lines are split at their tags exactly when each is clear of those before it. -/
theorem splitsAtTags_iff (trimmed : ∀ line ∈ lines, Text.trim line = line) :
    SplitsAtTags lines ↔
      ∀ before line after, lines = before ++ line :: after → IsClear before line := by
  constructor
  · intro splits before line after eq
    have same := splits before _ eq
    have next := splits (before ++ [line]) after (by rw [eq]; simp)
    rw [← doc_statedOf, ofContents] at same next
    rw [readOf_append, statedOf_append] at next
    exact clearOf_of_doc (opens before) (trimmed line (by simp [eq])) same next
  · intro clear before after eq
    have agrees : Agrees (lastTag? before) (readOf before) (statedOf before) :=
      agrees_of_clear fun start line rest split =>
        clear start line (rest ++ after) (by rw [eq, split]; simp)
    rw [← doc_statedOf]
    exact agrees.doc

theorem trim_of_mem_contents {text : String} (h : line ∈ contents text) :
    Text.trim line = line := by
  obtain ⟨raw, -, rfl⟩ := List.mem_map.mp h
  exact Text.trim_trim _

/-- Without stray tags every line is clear. -/
theorem isClear_of_no_stray {before after : List (List Char)}
    (none : ∀ line ∈ lines, ¬ IsStray line) (h : lines = before ++ line :: after) : IsClear before line := by
  refine ⟨fun _ _ tag last => none tag ?_, fun stray => absurd stray (none line (by simp [h]))⟩
  have mem := List.mem_reverse.mp (List.mem_of_find?_eq_some last)
  simp [h, mem]

theorem parse_eq_ofContents (text : String) : parse text = ofContents (contents text) :=
  parse_eq text

/-- What every text comes to: the description goes on up to the first tag that names something, and
again from a nameless tag for a parameter that follows another tag; and each name opens an entry.
The text and all that it begins with are split at their tags exactly when no line stands under a
stray tag and no stray tag opens an entry that is not there already; so it is without stray tags. -/
theorem parse_splits (text : String) :
    parse text = ⟨described (told ((contents text).map Line.read) ++
        resumed ((contents text).map Line.read)),
      Assoc.ofList (opened ((contents text).map Line.read))⟩ ∧
    (SplitsAtTags (contents text) ↔ ∀ before line after,
      contents text = before ++ line :: after → IsClear before line) ∧
    ((∀ line ∈ contents text, ¬ IsStray line) → parse text = splitAtTags (contents text)) := by
  have trimmed : ∀ line ∈ contents text, Text.trim line = line := fun _ => trim_of_mem_contents
  refine ⟨parse_eq_of_lines text, splitsAtTags_iff trimmed, fun none => ?_⟩
  rw [parse_eq_ofContents]
  have splits := (splitsAtTags_iff trimmed).mpr fun _ _ _ => isClear_of_no_stray none
  exact splits (contents text) [] (by simp)

/-- A longer tag is taken for a parameter's, and a nameless tag leaves the last entry open. -/
theorem parse_ne_splitAtTags_order :
    parse "An order.\n@parameters none\n@param id the id\n@param\nmore" ≠
      splitAtTags (contents "An order.\n@parameters none\n@param id the id\n@param\nmore") := by
  decide +kernel

end DocText

end Schemata
