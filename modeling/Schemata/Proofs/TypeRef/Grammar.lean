import Schemata.Proofs.Text.Blanks
import Schemata.Proofs.TypeRef.Occurrences

/-!
# The grammar of type occurrences

The grammar is a relation between an occurrence and a text, which does not know how texts are
read.  An occurrence has a text exactly when it is textual: its names are names, nothing in it
has directives or is a placeholder, a wildcard has at most one bound, and no array is one of
wildcards.
-/
namespace Schemata

namespace TypeRef

open Text

theorem isNameChar_of_isBlank {c : Char} (h : isBlank c = true) : isNameChar c = false := by
  have other (d : Char) (hd : isBlank d = false) : c ≠ d := by
    intro same
    rw [same, hd] at h
    cases h
  simp [isNameChar, isAlphanumeric_of_isBlank h, other '_' rfl, other '.' rfl, other '$' rfl,
    other '-' rfl]

/-- A run of characters that names are made of. -/
def isName (name : String) : Bool := !name.toList.isEmpty && name.toList.all isNameChar

def isWildcard : TypeRef → Bool
  | .wildcard _ => true
  | _ => false

mutual

/-- Whether the occurrence has a text of its own. -/
def isTextual : TypeRef → Bool
  | .named name args directives => isName name && directives.isEmpty && areTextual args
  | .array element => isTextual element && !isWildcard element
  | .placeholder _ _ => false
  | .wildcard bounds => decide (bounds.length ≤ 1) && areTextual bounds

def areTextual : List TypeRef → Bool
  | [] => true
  | t :: rest => isTextual t && areTextual rest

end

theorem areTextual_eq_all (ts : List TypeRef) : areTextual ts = ts.all isTextual := by
  induction ts with
  | nil => rfl
  | cons t rest ih => simp [areTextual, ih]

/-- What a text can be the text of: an occurrence, or arguments one after the other. -/
inductive Phrase where
  | type (t : TypeRef)
  | args (ts : List TypeRef)

/-- The texts of occurrences.  Blanks may stand before an occurrence and before every mark; a
lower bound is written and means nothing. -/
inductive Spells : Phrase → List Char → Prop
  | lead {gap text t} (blank : AllBlank gap) (type : Spells (.type t) text) :
    Spells (.type t) (gap ++ text)
  | unbounded : Spells (.type (.wildcard [])) ['?']
  | upper {gap text bound} {c : Char} (blank : AllBlank gap) (space : isBlank c = true)
    (type : Spells (.type bound) text) :
    Spells (.type (.wildcard [bound])) ('?' :: (gap ++ ("extends".toList ++ c :: text)))
  | lower {gap text bound} {c : Char} (blank : AllBlank gap) (space : isBlank c = true)
    (type : Spells (.type bound) text) :
    Spells (.type (.wildcard [])) ('?' :: (gap ++ ("super".toList ++ c :: text)))
  | plain {name} (named : isName name = true) : Spells (.type (plain name)) name.toList
  | generic {name gap text ts} (named : isName name = true) (blank : AllBlank gap)
    (args : Spells (.args ts) text) :
    Spells (.type (generic name ts)) (name.toList ++ (gap ++ '<' :: (text ++ ['>'])))
  | array {gap text t} (type : Spells (.type t) text) (bounded : t.isWildcard = false)
    (blank : AllBlank gap) : Spells (.type (.array t)) (text ++ (gap ++ ['[', ']']))
  | last {gap text t} (type : Spells (.type t) text) (blank : AllBlank gap) :
    Spells (.args [t]) (text ++ gap)
  | more {gap text rest t ts} (type : Spells (.type t) text) (blank : AllBlank gap)
    (args : Spells (.args ts) rest) : Spells (.args (t :: ts)) (text ++ (gap ++ ',' :: rest))

/-- A text of the occurrence, with blanks after it. -/
def Writes (text : List Char) (t : TypeRef) : Prop :=
  ∃ taken gap, text = taken ++ gap ∧ AllBlank gap ∧ Spells (.type t) taken

def Phrase.isTextual : Phrase → Bool
  | .type t => t.isTextual
  | .args ts => areTextual ts

variable {text rest gap : List Char} {t : TypeRef} {ts : List TypeRef} {name : String}

/-- Only textual occurrences have texts. -/
theorem Spells.isTextual {p : Phrase} (h : Spells p text) : p.isTextual = true := by
  induction h with
  | lead blank type ih => exact ih
  | unbounded => rfl
  | upper blank space type ih => simpa [Phrase.isTextual, TypeRef.isTextual, areTextual] using ih
  | lower blank space type ih => rfl
  | plain named => simp [Phrase.isTextual, TypeRef.plain, TypeRef.isTextual, areTextual, named]
  | generic named blank args ih =>
    simpa [Phrase.isTextual, TypeRef.generic, TypeRef.isTextual, named] using ih
  | array type bounded blank ih =>
    simpa [Phrase.isTextual, TypeRef.isTextual, bounded] using ih
  | last type blank ih => simpa [Phrase.isTextual, areTextual] using ih
  | more type blank args ih ihs =>
    simp only [Phrase.isTextual, areTextual, Bool.and_eq_true] at ih ihs ⊢
    exact ⟨ih, ihs⟩

theorem Writes.isTextual (h : Writes text t) : t.isTextual = true := by
  obtain ⟨taken, gap, -, -, type⟩ := h
  exact type.isTextual

theorem writes_of_spells (h : Spells (.type t) text) : Writes text t :=
  ⟨text, [], (List.append_nil text).symm, allBlank_nil, h⟩

/-! ### The text that is written -/

theorem spells_writeArgs (some : ts ≠ []) (h : ∀ t ∈ ts, Spells (.type t) t.write) :
    Spells (.args ts) (writeArgs ts) := by
  induction ts with
  | nil => exact absurd rfl some
  | cons t rest ih =>
    have first := h t List.mem_cons_self
    cases rest with
    | nil =>
      have alone := first.last allBlank_nil
      rw [List.append_nil] at alone
      exact alone
    | cons next rest =>
      have others := ih (List.cons_ne_nil _ _) fun s hs => h s (List.mem_cons_of_mem t hs)
      exact first.more allBlank_nil others

theorem eq_nil_of_length_le (h : (t :: ts).length ≤ 1) : ts = [] := by
  rw [List.length_cons] at h
  exact List.eq_nil_of_length_eq_zero (by omega)

/-- A textual occurrence has the text that is written for it. -/
theorem spells_write (h : t.isTextual = true) : Spells (.type t) t.write := by
  induction t using inductionOnParts with
  | step t ih =>
    cases t with
    | named name args directives =>
      simp only [isTextual, Bool.and_eq_true, areTextual_eq_all, List.all_eq_true,
        List.isEmpty_iff] at h
      obtain ⟨⟨named, rfl⟩, textual⟩ := h
      cases args with
      | nil => exact .plain named
      | cons arg rest =>
        have inner := spells_writeArgs (List.cons_ne_nil arg rest)
          fun s hs => ih s hs (textual s hs)
        have whole : Spells (.type (.named name (arg :: rest) [])) _ :=
          inner.generic named allBlank_nil
        simpa [write] using whole
    | array element =>
      simp only [isTextual, Bool.and_eq_true, Bool.not_eq_true'] at h
      have inner := ih element (List.mem_singleton_self _) h.1
      exact inner.array h.2 allBlank_nil
    | placeholder name bounds => cases h
    | wildcard bounds =>
      simp only [isTextual, Bool.and_eq_true, areTextual_eq_all, List.all_eq_true,
        decide_eq_true_eq] at h
      cases bounds with
      | nil => exact .unbounded
      | cons bound rest =>
        have single := eq_nil_of_length_le h.1
        subst single
        have inner := ih bound (List.mem_singleton_self _) (h.2 bound List.mem_cons_self)
        exact inner.upper (c := ' ') allBlank_space rfl

end TypeRef

end Schemata
