import Schemata.DocText
import Schemata.Proofs.Assoc

/-!
# How documentation is read

The state of a reader tells what becomes of the lines after it: they go on with what is open up to
the next tag that names something.  So what a text comes to can be said without the states.  A tag
for a parameter without a name counts as no tag, except that after any other tag it returns to the
description.
-/
namespace Schemata

namespace DocText

/-- The lines of a text without what decorates them. -/
def contents (text : String) : List (List Char) := (Text.lines text.toList).map stripped

/-- The beginning of the tags for parameters. -/
def parameterTag : List Char := "@param".toList

/-- How a line is read that has been stripped. -/
def Line.read (line : List Char) : Line :=
  match Text.dropBeginning? parameterTag line with
  | some rest =>
    .param (String.ofList (splitWord (Text.trim rest)).1)
      (String.ofList (Text.trim (splitWord (Text.trim rest)).2))
  | none => if line.head? = some '@' then .otherTag else .text line

/-- A description of these lines; none if there is nothing but blanks. -/
def described (lines : List (List Char)) : Option String :=
  let description := Text.trim (['\n'].intercalate lines)
  if description.isEmpty then none else some (String.ofList description)

/-- What has been read so far. -/
def State.doc (s : State) : DocText := ⟨described s.lines, s.params⟩

/-- What is read of these lines. -/
def State.after (s : State) (lines : List Line) : State := lines.foldl State.next s

theorem parse_eq (text : String) :
    parse text = (State.after {} ((contents text).map Line.read)).doc := by
  rw [State.after, contents, List.map_map, List.foldl_map]
  rfl

/-! ### Without states -/

/-- An entry goes on with lines that are not empty. -/
def continued (body : String) (lines : List (List Char)) : String :=
  lines.foldl (fun body line => if line.isEmpty then body else extend line body) body

/-- The lines up to the next tag; a parameter's tag without a name is passed over. -/
def told : List Line → List (List Char)
  | .text content :: rest => content :: told rest
  | .param name _ :: rest => if name = "" then told rest else []
  | _ => []

/-- Every tag with the name of a parameter opens an entry. -/
def opened : List Line → List (String × String)
  | .param name body :: rest =>
    if name = "" then opened rest else (name, continued body (told rest)) :: opened rest
  | _ :: rest => opened rest
  | [] => []

/-- After another tag a parameter's tag without a name returns to the description. -/
def reopened : List Line → List (List Char)
  | .text _ :: rest => reopened rest
  | .param name _ :: rest => if name = "" then told rest else []
  | _ => []

/-- The lines with which the description goes on after other tags. -/
def resumed : List Line → List (List Char)
  | .otherTag :: rest => reopened rest ++ resumed rest
  | _ :: rest => resumed rest
  | [] => []

/-- What the lines that follow at once are added to. -/
def State.follow (s : State) (lines : List Line) : State :=
  match s.current with
  | .description => { s with lines := s.lines ++ told lines }
  | .nothing => { s with lines := s.lines ++ reopened lines }
  | .param name => { s with params := s.params.modify name (continued · (told lines)) }

/-- Inserts one pair after the other. -/
def inserted (params : Assoc String String) (pairs : List (String × String)) :
    Assoc String String :=
  pairs.foldl (fun m pair => m.insert pair.1 pair.2) params

variable {s : State} {rest : List Line}

/-- A line without a tag belongs to what is open. -/
theorem follow_text (s : State) (content : List Char) (rest : List Line) :
    (s.next (.text content)).follow rest = s.follow (.text content :: rest) := by
  cases current : s.current with
  | description => simp [State.next, State.follow, current, told]
  | nothing => simp [State.next, State.follow, current, reopened]
  | param name =>
    by_cases empty : content = []
    · simp [State.next, State.follow, current, told, continued, empty]
    · simp only [State.next, State.follow, current, told, continued, List.isEmpty_iff, empty,
        if_false, Assoc.modify_modify, List.foldl_cons]
      rfl

/-- A tag without a name opens at most the description again. -/
theorem follow_nameless (s : State) (body : String) (rest : List Line) :
    ((s.next (.param "" body)).follow rest).lines = (s.follow (.param "" body :: rest)).lines ∧
      ((s.next (.param "" body)).follow rest).params =
        (s.follow (.param "" body :: rest)).params := by
  cases current : s.current with
  | description => simp [State.next, State.follow, current, told]
  | nothing => simp [State.next, State.follow, current, reopened]
  | param name => simp [State.next, State.follow, current, told]

/-- Nothing before another tag belongs to what is open. -/
theorem follow_eq_self {lines : List Line} (none : told lines = []) (none' : reopened lines = []) :
    s.follow lines = s := by
  unfold State.follow
  rw [none, none']
  split
  · rw [List.append_nil]
  · rw [List.append_nil]
  · have same : (continued · []) = id := rfl
    rw [same, Assoc.modify_id]

/-- What a reader comes to: the lines that follow go on with what is open, and then each name opens
an entry while the description is resumed after other tags. -/
theorem after_eq (s : State) (lines : List Line) :
    (s.after lines).lines = (s.follow lines).lines ++ resumed lines ∧
      (s.after lines).params = inserted (s.follow lines).params (opened lines) := by
  induction lines generalizing s with
  | nil =>
    rw [follow_eq_self rfl rfl, resumed, List.append_nil]
    exact ⟨rfl, rfl⟩
  | cons line rest ih =>
    obtain ⟨lines, params⟩ := ih (s.next line)
    cases line with
    | text content =>
      rw [follow_text] at lines params
      exact ⟨lines, params⟩
    | otherTag =>
      rw [follow_eq_self rfl rfl, resumed, ← List.append_assoc]
      exact ⟨lines, params⟩
    | param name body =>
      by_cases nameless : name = ""
      · subst nameless
        obtain ⟨same, same'⟩ := follow_nameless s body rest
        rw [same] at lines
        rw [same'] at params
        exact ⟨lines, params⟩
      · have next : s.after (.param name body :: rest) = (s.next (.param name body)).after rest :=
          rfl
        have ended : s.follow (.param name body :: rest) = s :=
          follow_eq_self (if_neg nameless) (if_neg nameless)
        rw [next, lines, params, ended, opened, if_neg nameless, State.next, if_neg nameless]
        refine ⟨rfl, ?_⟩
        rw [State.follow]
        dsimp only
        rw [Assoc.modify_insert]
        rfl

/-- A text comes to the lines of its description and an entry for each name. -/
theorem parse_eq_of_lines (text : String) :
    parse text = ⟨described (told ((contents text).map Line.read) ++
        resumed ((contents text).map Line.read)),
      Assoc.ofList (opened ((contents text).map Line.read))⟩ := by
  obtain ⟨lines, params⟩ := after_eq {} ((contents text).map Line.read)
  rw [parse_eq, State.doc, lines, params]
  rfl

end DocText

end Schemata
