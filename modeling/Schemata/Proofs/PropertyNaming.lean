import Schemata.PropertyNaming

/-!
# Names with separators

A strategy that separates looks at each character and at the one before it: before a capital it
puts its separator, unless the name begins there or a capital or a separator stands in front.
Nothing else is added and nothing is lost but the case, so that the letters of the name can be read
off, and a name that was translated once stays as it is.
-/
namespace Schemata

/-! ### Small letters -/

namespace Text

/-- A text of ASCII characters. -/
def IsAscii (text : List Char) : Prop := ∀ c ∈ text, c.toNat < 128

instance (text : List Char) : Decidable (IsAscii text) :=
  decidable_of_iff (text.all (·.toNat < 128) = true) (by simp [IsAscii])

theorem isUpper_iff {c : Char} : c.isUpper = true ↔ 65 ≤ c.toNat ∧ c.toNat ≤ 90 := by
  have range : c.isUpper = true ↔ 'A'.val ≤ c.val ∧ c.val ≤ 'Z'.val := decide_eq_true_iff
  rw [range, UInt32.le_iff_toNat_le, UInt32.le_iff_toNat_le]
  rfl

/-- A capital is followed by its small letter at a distance of 32. -/
theorem toNat_toLower (c : Char) :
    c.toLower.toNat = if c.isUpper then c.toNat + 32 else c.toNat := by
  cases upper : c.isUpper with
  | true =>
    have range := isUpper_iff.mp upper
    have capital : c.val ≥ 'A'.val ∧ c.val ≤ 'Z'.val := of_decide_eq_true upper
    have distance : ('a'.val - 'A'.val).toNat = 32 := rfl
    have small : c.toLower.val = c.val + ('a'.val - 'A'.val) := congrArg Char.val (dif_pos capital)
    rw [if_pos rfl, ← Char.toNat_val, small, UInt32.toNat_add, distance, Char.toNat_val]
    exact Nat.mod_eq_of_lt (by omega)
  | false =>
    have other : ¬ (c.val ≥ 'A'.val ∧ c.val ≤ 'Z'.val) := of_decide_eq_false upper
    have same : c.toLower = c := dif_neg other
    rw [same]
    rfl

theorem toLower_of_not_isUpper {c : Char} (h : c.isUpper = false) : c.toLower = c := by
  refine Char.toNat_inj.mp ?_
  rw [toNat_toLower, h]
  rfl

theorem isUpper_toLower (c : Char) : c.toLower.isUpper = false := by
  refine Bool.eq_false_iff.mpr fun upper => ?_
  have range := isUpper_iff.mp upper
  rw [toNat_toLower] at range
  split at range
  · rename_i capital
    have := isUpper_iff.mp capital
    omega
  · rename_i small
    exact small (isUpper_iff.mpr range)

theorem toNat_toLower_lt {c : Char} (h : c.toNat < 128) : c.toLower.toNat < 128 := by
  rw [toNat_toLower]
  split
  · rename_i capital
    have := isUpper_iff.mp capital
    omega
  · exact h

end Text

namespace PropertyNaming

/-- The separator of a strategy that separates and writes small letters. -/
def separator? : PropertyNaming → Option Char
  | .snakeCase => some '_'
  | .kebabCase => some '-'
  | .lowerDotCase => some '.'
  | _ => none

/-- The part of a name that a strategy translates. -/
def translated : PropertyNaming → List Char → List Char
  | .snakeCase, name => name.dropWhile (· = '_')
  | _, name => name

/-- What stands before a character: a separator before a capital that follows neither a capital nor
a separator, and none where the name begins. -/
def markBefore (separator : Char) (previous : Option Char) (c : Char) : List Char :=
  if c.isUpper && previous.any (fun p => !p.isUpper && p ≠ separator) then [separator] else []

/-- What is written for a character that follows another. -/
def writtenFor (separator : Char) (pair : Option Char × Char) : List Char :=
  markBefore separator pair.1 pair.2 ++ [pair.2.toLower]

/-- The characters of a name, each with the one before it. -/
def withPrevious (name : List Char) : List (Option Char × Char) :=
  (none :: name.map some).zip name

/-- How a name is separated. -/
structure Separates (separator : Char) (name out : List Char) : Prop where
  /-- Without separators the name is the same in small letters. -/
  letters : out.filter (· ≠ separator) = (name.map Char.toLower).filter (· ≠ separator)
  /-- Separators are inserted nowhere but before the capitals that need them. -/
  marks : out = (withPrevious name).flatMap (writtenFor separator)
  small : ∀ c ∈ out, c.isUpper = false

variable {separator : Char} {name : List Char}

/-! ### One character after the other -/

/-- What is kept of the characters that were written tells of the one that was read last whether it
was a capital, and which it was if not. -/
structure Follows (last : Option Char) (afterCapital : Bool) (previous : Option Char) : Prop where
  capital : afterCapital = previous.any Char.isUpper
  written : afterCapital = false → last = previous

theorem follows_none : Follows none false none := ⟨rfl, fun _ => rfl⟩

theorem follows_small {c : Char} (h : c.isUpper = false) : Follows (some c) false (some c) :=
  ⟨h.symm, fun _ => rfl⟩

theorem follows_capital {c : Char} (h : c.isUpper = true) (last : Option Char) :
    Follows last true (some c) :=
  ⟨h.symm, fun none => by cases none⟩

/-- That suffices to tell whether a capital needs a separator. -/
theorem Follows.mark {last previous : Option Char} {afterCapital : Bool} {c : Char}
    (h : Follows last afterCapital previous) (upper : c.isUpper = true) :
    (if !afterCapital && last.isSome && last ≠ some separator then [separator] else []) =
      markBefore separator previous c := by
  unfold markBefore
  cases known : afterCapital with
  | true =>
    have capital : previous.any Char.isUpper = true := by rw [← h.capital, known]
    obtain ⟨p, rfl, hp⟩ := (Option.any_eq_true _ _).mp capital
    simp [hp]
  | false =>
    have small : previous.any Char.isUpper = false := by rw [← h.capital, known]
    rw [h.written known]
    cases previous with
    | none => simp
    | some p =>
      have hp : p.isUpper = false := small
      simp [upper, hp]

theorem separatedAfter_eq_flatMap (ascii : Text.IsAscii name) {last previous : Option Char}
    {afterCapital : Bool} (h : Follows last afterCapital previous) :
    separatedAfter separator last afterCapital name =
      ((previous :: name.map some).zip name).flatMap (writtenFor separator) := by
  induction name generalizing last previous afterCapital with
  | nil => rfl
  | cons c rest ih =>
    obtain ⟨hc, hrest⟩ := List.forall_mem_cons.mp ascii
    rw [List.map_cons, List.zip_cons_cons, List.flatMap_cons, separatedAfter, writtenFor,
      Text.isUppercase_of_ascii hc, Text.lowerChar_of_ascii hc]
    cases upper : c.isUpper with
    | false =>
      have none : markBefore separator previous c = [] := by simp [markBefore, upper]
      rw [if_neg Bool.false_ne_true, ih hrest (follows_small upper), none,
        Text.toLower_of_not_isUpper upper]
      rfl
    | true =>
      rw [if_pos rfl]
      dsimp only
      rw [h.mark upper, ih hrest (follows_capital upper _)]

theorem separated_eq_flatMap (ascii : Text.IsAscii name) :
    separated separator name = (withPrevious name).flatMap (writtenFor separator) :=
  separatedAfter_eq_flatMap ascii follows_none

/-! ### The separated name -/

theorem eq_of_mem_markBefore {previous : Option Char} {c d : Char}
    (h : d ∈ markBefore separator previous c) : d = separator := by
  unfold markBefore at h
  split at h
  · exact List.mem_singleton.mp h
  · cases h

theorem filter_flatMap_writtenFor (pairs : List (Option Char × Char)) :
    (pairs.flatMap (writtenFor separator)).filter (· ≠ separator) =
      ((pairs.map Prod.snd).map Char.toLower).filter (· ≠ separator) := by
  induction pairs with
  | nil => rfl
  | cons pair rest ih =>
    have marks : (markBefore separator pair.1 pair.2).filter (· ≠ separator) = [] :=
      List.filter_eq_nil_iff.mpr fun d hd => by simp [eq_of_mem_markBefore hd]
    rw [List.flatMap_cons, writtenFor, List.filter_append, List.filter_append, marks, ih,
      List.nil_append, ← List.filter_append]
    rfl

/-- What is written for a name is separators and the small letters of the name. -/
theorem mem_separated (ascii : Text.IsAscii name) {d : Char} (h : d ∈ separated separator name) :
    d = separator ∨ ∃ c ∈ name, d = c.toLower := by
  rw [separated_eq_flatMap ascii] at h
  obtain ⟨pair, hpair, hd⟩ := List.mem_flatMap.mp h
  rcases List.mem_append.mp hd with mark | letter
  · exact .inl (eq_of_mem_markBefore mark)
  · exact .inr ⟨pair.2, (List.of_mem_zip hpair).2, List.mem_singleton.mp letter⟩

theorem separates_separated (ascii : Text.IsAscii name) (small : separator.isUpper = false) :
    Separates separator name (separated separator name) where
  letters := by
    have second : (withPrevious name).map Prod.snd = name := List.map_snd_zip (by simp)
    rw [separated_eq_flatMap ascii, filter_flatMap_writtenFor, second]
  marks := separated_eq_flatMap ascii
  small d hd := by
    rcases mem_separated ascii hd with rfl | ⟨c, -, rfl⟩
    · exact small
    · exact Text.isUpper_toLower c

/-- Where nothing is a capital, nothing is changed. -/
theorem separated_of_small (ascii : Text.IsAscii name) (small : ∀ c ∈ name, c.isUpper = false) :
    separated separator name = name := by
  have loop (last : Option Char) : separatedAfter separator last false name = name := by
    induction name generalizing last with
    | nil => rfl
    | cons c rest ih =>
      obtain ⟨hc, ascii⟩ := List.forall_mem_cons.mp ascii
      obtain ⟨upper, small⟩ := List.forall_mem_cons.mp small
      rw [separatedAfter, Text.isUppercase_of_ascii hc, upper, if_neg Bool.false_ne_true,
        ih ascii small]
  exact loop none

theorem separated_separated (ascii : Text.IsAscii name) (hs : separator.toNat < 128)
    (small : separator.isUpper = false) :
    separated separator (separated separator name) = separated separator name := by
  refine separated_of_small (fun d hd => ?_) (separates_separated ascii small).small
  rcases mem_separated ascii hd with rfl | ⟨c, hc, rfl⟩
  · exact hs
  · exact Text.toNat_toLower_lt (ascii c hc)

/-! ### Strategies -/

/-- A name begins with what is written for its first character alone. -/
theorem exists_separated_cons (separator : Char) {c : Char} {rest : List Char}
    (ascii : Text.IsAscii (c :: rest)) :
    ∃ others, separated separator (c :: rest) = c.toLower :: others := by
  have none : markBefore separator none c = [] := by simp [markBefore]
  rw [separated_eq_flatMap ascii, withPrevious, List.map_cons, List.zip_cons_cons,
    List.flatMap_cons, writtenFor, none]
  exact ⟨_, rfl⟩

/-- No capital becomes an underscore. -/
theorem toLower_ne_underscore {c : Char} (h : c ≠ '_') : c.toLower ≠ '_' := by
  intro same
  cases upper : c.isUpper with
  | false => exact h (Text.toLower_of_not_isUpper upper ▸ same)
  | true =>
    have code : c.toLower.toNat = 95 := congrArg Char.toNat same
    rw [Text.toNat_toLower, upper, if_pos rfl] at code
    have := Text.isUpper_iff.mp upper
    omega

theorem isAscii_translated (naming : PropertyNaming) (ascii : Text.IsAscii name) :
    Text.IsAscii (naming.translated name) := by
  cases naming with
  | snakeCase => exact fun c hc => ascii c ((List.dropWhile_suffix _).subset hc)
  | _ => exact ascii

/-- What was separated is translated as a whole: an underscore is not where it begins. -/
theorem translated_separated (naming : PropertyNaming) (ascii : Text.IsAscii name) :
    naming.translated (separated separator (naming.translated name)) =
      separated separator (naming.translated name) := by
  cases naming with
  | snakeCase =>
    have ascii := isAscii_translated .snakeCase ascii
    change (separated separator (name.dropWhile (· = '_'))).dropWhile (· = '_') =
      separated separator (name.dropWhile (· = '_'))
    change Text.IsAscii (name.dropWhile (· = '_')) at ascii
    have begins := List.head?_dropWhile_not (· = '_') name
    cases left : name.dropWhile (· = '_') with
    | nil => rfl
    | cons c rest =>
      rw [left] at ascii begins
      obtain ⟨others, written⟩ := exists_separated_cons separator ascii
      have other : c ≠ '_' := by simpa using begins
      rw [written, List.dropWhile_cons_of_neg (by simpa using toLower_ne_underscore other)]
  | _ => rfl

theorem translate_of_separator? {naming : PropertyNaming} (h : naming.separator? = some separator)
    (name : String) : (naming.translate name).toList =
      separated separator (naming.translated name.toList) := by
  rw [translate, String.toList_ofList]
  cases naming <;> cases h <;> rfl

/-- A strategy that separates does no more to a name in ASCII than to put its separator before
capitals, where it is needed, and to write these small; and it does nothing to what it wrote. -/
theorem translate_separates {naming : PropertyNaming} (h : naming.separator? = some separator)
    {name : String} (ascii : Text.IsAscii name.toList) :
    Separates separator (naming.translated name.toList) (naming.translate name).toList ∧
      naming.translate (naming.translate name) = naming.translate name := by
  have code : separator.toNat < 128 ∧ separator.isUpper = false := by
    cases naming <;> cases h <;> decide
  have ascii' := isAscii_translated naming ascii
  refine ⟨?_, String.toList_injective ?_⟩
  · rw [translate_of_separator? h]
    exact separates_separated ascii' code.2
  · rw [translate_of_separator? h, translate_of_separator? h, translated_separated naming ascii,
      separated_separated ascii' code.1 code.2]

/-- Capitals in a row, a separator of the name's own, and a digit. -/
theorem translate_separates_feedURLs :
    separator? .kebabCase = some '-' ∧ Text.IsAscii "XMLFeed2-URLsOf".toList ∧
      translate .kebabCase "XMLFeed2-URLsOf" = "xmlfeed2-urls-of" ∧
      Separates '-' "XMLFeed2-URLsOf".toList "xmlfeed2-urls-of".toList := by
  have ascii : Text.IsAscii "XMLFeed2-URLsOf".toList := by decide +kernel
  have written : translate .kebabCase "XMLFeed2-URLsOf" = "xmlfeed2-urls-of" := by decide
  have separating : separator? .kebabCase = some '-' := rfl
  have separates := (translate_separates separating ascii).1
  rw [written] at separates
  exact ⟨separating, ascii, written, separates⟩

end PropertyNaming

end Schemata
