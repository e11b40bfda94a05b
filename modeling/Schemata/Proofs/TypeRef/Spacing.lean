import Schemata.Proofs.TypeRef.Grammar

/-!
# Blanks that are put into a text

Blanks around the marks of arguments and before array marks do not change what a text is the
text of.
-/
namespace Schemata

namespace TypeRef

open Text

/-- The marks of arguments. -/
def separators : List Char := ['<', '>', ',']

/-- The second text is the first one with blanks around the marks of arguments and before array
marks. -/
inductive Loosened : List Char → List Char → Prop
  | nil : Loosened [] []
  | cons {c before after text loose} (blank : AllBlank before) (blank' : AllBlank after)
    (opens : before = [] ∨ c ∈ separators ∨ c = '[') (closes : after = [] ∨ c ∈ separators)
    (h : Loosened text loose) : Loosened (c :: text) (before ++ c :: (after ++ loose))

variable {text loose gap : List Char} {t : TypeRef} {ts : List TypeRef}

theorem Loosened.refl (text : List Char) : Loosened text text := by
  induction text with
  | nil => exact .nil
  | cons c text ih => exact .cons allBlank_nil allBlank_nil (.inl rfl) (.inl rfl) ih

theorem Loosened.split {more : List Char} (h : Loosened (text ++ more) loose) :
    ∃ first second, loose = first ++ second ∧ Loosened text first ∧ Loosened more second := by
  induction text generalizing loose with
  | nil => exact ⟨[], loose, rfl, .nil, h⟩
  | cons c text ih =>
    cases h with
    | cons blank blank' opens closes inner =>
      obtain ⟨first, second, rfl, hfirst, hsecond⟩ := ih inner
      refine ⟨_, second, ?_, .cons blank blank' opens closes hfirst, hsecond⟩
      simp

theorem unmarked_of_all (h : (text.all fun c => !separators.contains c && c != '[') = true) :
    ∀ c ∈ text, c ∉ separators ∧ c ≠ '[' := by
  simpa using h

/-- Nothing is put between characters that are no marks. -/
theorem Loosened.eq_of_unmarked (unmarked : ∀ c ∈ text, c ∉ separators ∧ c ≠ '[')
    (h : Loosened text loose) : loose = text := by
  induction h with
  | nil => rfl
  | @cons c before after text loose blank blank' opens closes inner ih =>
    obtain ⟨separator, opening⟩ := unmarked c List.mem_cons_self
    have none := opens.resolve_right fun mark => mark.elim separator opening
    have none' := closes.resolve_right separator
    subst none none'
    rw [ih fun d hd => unmarked d (List.mem_cons_of_mem c hd)]
    rfl

theorem unmarked_of_isName {name : String} (named : isName name = true) :
    ∀ c ∈ name.toList, c ∉ separators ∧ c ≠ '[' := by
  intro c hc
  simp only [isName, Bool.and_eq_true, List.all_eq_true] at named
  have inside := named.2 c hc
  have other (d : Char) (hd : isNameChar d = false) : c ≠ d := by
    intro same
    rw [same, hd] at inside
    cases inside
  simp [separators, other '<' rfl, other '>' rfl, other ',' rfl, other '[' rfl]

theorem Spells.leadArgs (blank : AllBlank gap) (h : Spells (.args ts) text) :
    Spells (.args ts) (gap ++ text) := by
  cases h with
  | last type blank' =>
    have alone := (type.lead blank).last blank'
    rwa [List.append_assoc] at alone
  | more type blank' args =>
    have longer := (type.lead blank).more blank' args
    rwa [List.append_assoc] at longer

theorem Spells.trail {p : Phrase} (h : Spells p text) (hp : p = .args ts) (blank : AllBlank gap) :
    Spells (.args ts) (text ++ gap) := by
  induction h generalizing ts with
  | last type blank' =>
    cases hp
    have alone := type.last (blank'.append blank)
    rwa [← List.append_assoc] at alone
  | more type blank' args ih ihs =>
    cases hp
    have longer := type.more blank' (ihs rfl)
    simpa using longer
  | _ => cases hp

/-- Nothing is put inside or after an array mark. -/
theorem Loosened.marks (h : Loosened ['[', ']'] loose) :
    ∃ before, loose = before ++ ['[', ']'] ∧ AllBlank before := by
  cases h with
  | @cons c before after text loose blank blank' opens closes inner =>
    have none := closes.resolve_right (by decide)
    have closing := inner.eq_of_unmarked (unmarked_of_all rfl)
    subst none closing
    exact ⟨before, rfl, blank⟩

/-- A single character with blanks around it. -/
theorem Loosened.single {c : Char} (h : Loosened [c] loose) :
    ∃ before after, loose = before ++ c :: after ∧ AllBlank before ∧ AllBlank after := by
  cases h with
  | cons blank blank' opens closes inner =>
    cases inner
    exact ⟨_, _, by rw [List.append_nil], blank, blank'⟩

theorem Loosened.head {c : Char} (h : Loosened (c :: text) loose) :
    ∃ before after rest, loose = before ++ c :: (after ++ rest) ∧ AllBlank before ∧
      AllBlank after ∧ Loosened text rest := by
  cases h with
  | cons blank blank' opens closes inner => exact ⟨_, _, _, rfl, blank, blank', inner⟩

theorem spells_of_loosenedArgs (some : ts ≠ [])
    (h : ∀ t ∈ ts, ∀ loose, Loosened t.write loose → Writes loose t)
    (hloose : Loosened (writeArgs ts) loose) : Spells (.args ts) loose := by
  induction ts generalizing loose with
  | nil => exact absurd rfl some
  | cons t rest ih =>
    cases rest with
    | nil =>
      obtain ⟨taken, gap, rfl, blank, type⟩ := h t List.mem_cons_self loose hloose
      exact type.last blank
    | cons next rest =>
      obtain ⟨first, second, rfl, hfirst, hsecond⟩ := hloose.split
      obtain ⟨before, after, others, rfl, blank, blank', hothers⟩ := hsecond.head
      obtain ⟨taken, gap, rfl, blank'', type⟩ := h t List.mem_cons_self first hfirst
      have inner := ih (List.cons_ne_nil _ _) (fun s hs => h s (List.mem_cons_of_mem t hs)) hothers
      have whole := type.more (blank''.append blank) (inner.leadArgs blank')
      simpa using whole

/-- The text that is written for a textual occurrence may be loosened. -/
theorem writes_of_loosened (h : t.isTextual = true) (hloose : Loosened t.write loose) :
    Writes loose t := by
  induction t using inductionOnParts generalizing loose with
  | step t ih =>
    cases t with
    | named name args directives =>
      simp only [isTextual, Bool.and_eq_true, areTextual_eq_all, List.all_eq_true,
        List.isEmpty_iff] at h
      obtain ⟨⟨named, rfl⟩, textual⟩ := h
      cases args with
      | nil =>
        rw [hloose.eq_of_unmarked (unmarked_of_isName named)]
        exact writes_of_spells (.plain named)
      | cons arg rest =>
        -- Blanks stand beside the marks only, so that the name is as it was.
        obtain ⟨front, last, rfl, hfront, hlast⟩ := hloose.split
        obtain ⟨first, second, rfl, hfirst, hsecond⟩ := hfront.split
        obtain ⟨before, after, inside, rfl, blank, blank', hinside⟩ := hsecond.head
        obtain ⟨gap, trailing, rfl, blank'', trailed⟩ := hlast.single
        rw [hfirst.eq_of_unmarked (unmarked_of_isName named)]
        have inner := spells_of_loosenedArgs (List.cons_ne_nil arg rest)
          (fun s hs loose hl => ih s hs (textual s hs) hl) hinside
        have type : Spells (.type (.named name (arg :: rest) [])) _ :=
          ((inner.leadArgs blank').trail rfl blank'').generic named blank
        exact ⟨_, trailing, by simp, trailed, type⟩
    | array element =>
      simp only [isTextual, Bool.and_eq_true, Bool.not_eq_true'] at h
      obtain ⟨first, second, rfl, hfirst, hsecond⟩ := hloose.split
      obtain ⟨taken, gap, rfl, blank, type⟩ :=
        ih element (List.mem_singleton_self _) h.1 hfirst
      obtain ⟨before, rfl, blank'⟩ := hsecond.marks
      have whole := type.array h.2 (blank.append blank')
      exact writes_of_spells (by simpa using whole)
    | placeholder name bounds => cases h
    | wildcard bounds =>
      simp only [isTextual, Bool.and_eq_true, areTextual_eq_all, List.all_eq_true,
        decide_eq_true_eq] at h
      cases bounds with
      | nil =>
        rw [hloose.eq_of_unmarked (unmarked_of_all rfl)]
        exact writes_of_spells .unbounded
      | cons bound rest =>
        have single := eq_nil_of_length_le h.1
        subst single
        have whole : Loosened ('?' :: " extends ".toList ++ bound.write) loose := hloose
        obtain ⟨front, second, rfl, hfront, hsecond⟩ := whole.split
        rw [hfront.eq_of_unmarked (unmarked_of_all rfl)]
        obtain ⟨taken, gap, rfl, blank, type⟩ :=
          ih bound (List.mem_singleton_self _) (h.2 bound List.mem_cons_self) hsecond
        exact ⟨_, gap, by simp, blank, type.upper (c := ' ') allBlank_space rfl⟩

end TypeRef

end Schemata
