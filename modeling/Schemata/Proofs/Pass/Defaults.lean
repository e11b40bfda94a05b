import Schemata.Proofs.Pass.Literals

/-!
# Defaults in plain text

The default of an array may be written as pieces between commas.  Each piece becomes a text,
whatever the items of the array are, and nothing is reported.
-/
namespace Schemata

open Pass

theorem Pass.not_notes_self {p : Pass} {d : Diagnostic} : ¬ Notes p p d := by
  rintro ⟨noted, same, h⟩
  rw [List.self_eq_append_right.mp same] at h
  cases h

/-! ### Pieces between commas -/

/-- The pieces of a text between its commas, without the blanks around them. -/
def pieces (text : String) : List String :=
  (Text.splitOn (· = ',') text.toList).map fun piece => String.ofList (Text.trim piece)

theorem pieces_ne_nil (text : String) : pieces text ≠ [] := by
  rw [pieces, ne_eq, List.map_eq_nil_iff]
  exact Text.splitOn_ne_nil _ _

theorem commaSeparated_eq (text : String) :
    commaSeparated text = .arr ((pieces text).map .str) := by
  rw [commaSeparated, pieces, List.map_map]
  rfl

/-- Whether a text may be a list in plain text: it is not empty and does not begin with a
bracket. -/
def isPlainList (text : String) : Bool :=
  text != "" && (Text.trimStart text.toList).head? != some '['

theorem coerceMany_of_isPlainList {text : String} (plain : isPlainList text = true)
    (format : Option String) :
    coerceMany text (some .array) format = .ok (some (commaSeparated text)) := by
  simp only [isPlainList, Bool.and_eq_true, bne_iff_ne] at plain
  rw [coerceMany, if_pos ⟨rfl, plain.2, plain.1⟩]

/-- A text is a scalar of a type if and only if that is the type of texts, and the format fits. -/
theorem LiteralType.admits_str_iff {l : LiteralType} {type : SchemaType} {text : String}
    (scalar : type ∈ [.string, .integer, .boolean, .number]) (typed : l.type = some type) :
    l.admits (.str text) = true ↔ type = .string ∧ Coerce.fits l.format text.toList = true := by
  obtain ⟨_, format⟩ := l
  obtain rfl := typed
  simp only [List.mem_cons, List.not_mem_nil, or_false] at scalar
  rcases scalar with rfl | rfl | rfl | rfl <;> simp [admits]

/-- A default is a list with a value of the type for each piece of a text, or it was reported that
the text is none. -/
def SettlesPieces (l : LiteralType) (subject text : String) (p q : Pass)
    (found : Option Json) : Prop :=
  (∃ values, found = some (.arr values) ∧ values.length = (pieces text).length ∧
      ∀ value ∈ values, l.admits value = true) ∨
    ∃ message, Notes p q (.coercionFailed subject text message)

/-- What is not reported is settled only among texts that fit the format. -/
theorem settlesPieces_iff {l : LiteralType} {type : SchemaType} {subject text : String} {p : Pass}
    (scalar : type ∈ [.string, .integer, .boolean, .number]) (typed : l.type = some type) :
    SettlesPieces l subject text p p (some (commaSeparated text)) ↔
      type = .string ∧ ∀ piece ∈ pieces text, Coerce.fits l.format piece.toList = true := by
  have admits_iff {piece : String} : l.admits (.str piece) = true ↔
      type = .string ∧ Coerce.fits l.format piece.toList = true :=
    LiteralType.admits_str_iff scalar typed
  obtain ⟨first, hfirst⟩ := List.exists_mem_of_ne_nil _ (pieces_ne_nil text)
  constructor
  · rintro (⟨values, same, -, admitted⟩ | ⟨_, noted⟩)
    · obtain rfl : (pieces text).map .str = values :=
        Json.arr.inj ((commaSeparated_eq text).symm.trans (Option.some.inj same))
      have each (piece : String) (hpiece : piece ∈ pieces text) :=
        admits_iff.mp (admitted _ (List.mem_map_of_mem hpiece))
      exact ⟨(each first hfirst).1, fun piece hpiece => (each piece hpiece).2⟩
    · exact absurd noted not_notes_self
  · rintro ⟨texts, fits⟩
    refine .inl ⟨(pieces text).map .str, by rw [commaSeparated_eq], List.length_map _, ?_⟩
    intro value hvalue
    obtain ⟨piece, hpiece, rfl⟩ := List.mem_map.mp hvalue
    exact admits_iff.mpr ⟨texts, fits piece hpiece⟩

/-! ### The directives of an element -/

/-- Whether the schema directive or the array directive of the element states a literal. -/
def Element.states (e : Element) (slot : LiteralSlot) : Bool :=
  (e.directive? .schema).any (·.states slot) || (e.directive? .arraySchema).any (·.states slot)

namespace Compiler

variable {c : Compiler} {env : Environment} {e : Element} {t : TypeRef} {p q : Pass}
  {s laid : Schema}

/-- What binding leaves of a schema that is no reference. -/
theorem exists_of_bind_inline {derived : Schema} {nullable : Bool} (inline : derived.isRef = false)
    (hm : Yields (c.bind env e t derived nullable) p s q) :
    ∃ s₁ p₁ s₂ p₂ base found, Yields (c.overlayStated env derived e t) p s₁ p₁ ∧
      Yields (c.overlayStatedArray env s₁ e t) p₁ s₂ p₂ ∧
      (∃ target, s₂.constrained target e.directives = base) ∧
      e.default? (literalType env.types p₂.registry [base] t) base.facets.defaultValue = found ∧
      s.ref = base.ref ∧ s.type = base.type ∧
      s.facets = { base.facets with defaultValue := found.1 } ∧ p₂.withDiagnostics found.2 = q := by
  obtain ⟨laid, overlaid, rfl⟩ := (yields_bind_of_not_isRef inline).mp hm
  generalize Element.constraintTarget env p.registry t derived = target at overlaid
  obtain ⟨s₁, p₁, s₂, p₂, first, second, found, rfl, rfl, rfl⟩ := yields_overlayAll.mp overlaid
  refine ⟨s₁, p₁, s₂, p₂, s₂.constrained target e.directives, _, first, second, ⟨target, rfl⟩, rfl,
    ?_⟩
  unfold Schema.nullableIf
  split <;> exact ⟨rfl, rfl, rfl, rfl⟩

theorem value?_overlayStated {slot : LiteralSlot} (unstated : e.states slot = false)
    (hm : Yields (c.overlayStated env s e t) p laid q) :
    slot.value? laid.facets = slot.value? s.facets := by
  rcases overlayStated_cases hm with ⟨d, stated, hm⟩ | ⟨-, rfl, -⟩
  · rw [Element.states, stated, Option.any_some, Bool.or_eq_false_iff] at unstated
    exact value?_overlay_of_not_states slot unstated.1 hm
  · rfl

theorem value?_overlayStatedArray {slot : LiteralSlot} (unstated : e.states slot = false)
    (hm : Yields (c.overlayStatedArray env s e t) p laid q) :
    slot.value? laid.facets = slot.value? s.facets := by
  rcases overlayStatedArray_cases hm with ⟨d, stated, hm⟩ | ⟨-, rfl, -⟩
  · rw [Element.states, stated, Option.any_some, Bool.or_eq_false_iff] at unstated
    exact value?_overlayArray_of_not_states slot unstated.2 hm
  · rfl

end Compiler

/-- A list in plain text that a configuration binds to an array is its default. -/
theorem Element.default?_of_isPlainList {e : Element} {text : String} {format : Option String}
    (bound : (e.directive? .bindable).bind (Assoc.get? · "default") = some (.str text))
    (plain : isPlainList text = true) :
    e.default? ⟨some .array, format⟩ none = (some (commaSeparated text), []) := by
  have read : e.defaultFrom ⟨some .array, format⟩ .bindable true =
      (some (commaSeparated text), []) := by
    rw [defaultFrom, bound]
    simp only [if_true, coerceMany_of_isPlainList plain, LiteralType.settled]
  simp only [default?, read]

/-! ### Arrays -/

/-- What is written out with items is an array, and says nothing else but labels. -/
theorem compositional_array (u : Universe) :
    u.Compositional
      (fun s => ∀ item, s.items = some item → s.isRef = false ∧ s.facets.defaultValue = none)
      fun _ => True where
  reference _ _ items := by cases items
  labelled _ h := h
  value _ _ _ _ items := by cases items
  argument _ := trivial
  used _ _ := trivial
  array _ _ _ := ⟨rfl, rfl⟩
  anyMap _ items := by cases items
  map _ _ items := by cases items
  constants _ _ _ items := by cases items

section

variable {env : Environment} {depth : Nat} {e : Element} {t : TypeRef} {scope : Scope}
  {p₀ p q : Pass} {derived s : Schema} {nullable : Bool} {text : String}
  (unstated : e.states .defaultValue = false)
  (bound : (e.directive? .bindable).bind (Assoc.get? · "default") = some (.str text))
  (plain : isPlainList text = true)

include unstated bound plain

/-- An array takes a list in plain text as its default.  Nothing is noted of it, and the pass stays
in the state in which the directives of the element left it. -/
theorem defaultValue_of_bind {c : Compiler} (inline : derived.isRef = false)
    (bare : derived.facets.defaultValue = none)
    (hm : Yields (c.bind env e t derived nullable) p s q) (written : s.isRef = false)
    (array : s.type = some .array) :
    s.facets.defaultValue = some (commaSeparated text) ∧
      ∃ s₁ p₁ s₂, Yields (c.overlayStated env derived e t) p s₁ p₁ ∧
        Yields (c.overlayStatedArray env s₁ e t) p₁ s₂ q := by
  obtain ⟨s₁, p₁, s₂, p₂, base, found, first, second, ⟨target, constrained⟩, default, ref, type,
    facets, rfl⟩ := Compiler.exists_of_bind_inline inline hm
  have none : base.facets.defaultValue = none := by
    rw [← constrained]
    exact (LiteralSlot.value?_constrained .defaultValue s₂ target e.directives).trans
      ((Compiler.value?_overlayStatedArray unstated second).trans
        ((Compiler.value?_overlayStated unstated first).trans bare))
  have ofType : base.IsOf .array base.facets.format :=
    ⟨by rwa [Schema.isRef, ref] at written, type.symm.trans array, rfl⟩
  rw [none, Compiler.literalType_of_isOf _ _ [] ofType,
    Element.default?_of_isPlainList bound plain] at default
  subst default
  refine ⟨congrArg Facets.defaultValue facets, s₁, p₁, s₂, first, ?_⟩
  rw [withDiagnostics_nil]
  exact second

/-- Where the type of an element comes to an array, a default in plain text is a list of texts, and
the pass ends where laying the directives over the array left it.  For items of any scalar type the
default is settled exactly if that is the type of texts and all pieces are of its format. -/
theorem settlesPieces_iff_of_bind {r : Resolved} {item : Schema}
    (resolved : Yields ((Compiler.ofDepth env depth).resolve (some e) t scope) p₀ (some r) p)
    (items : r.schema.items = some item)
    (hm : Yields ((Compiler.ofDepth env depth).bind env e t r.schema nullable) p s q)
    (written : s.isRef = false) (array : s.type = some .array) :
    ∃ s₁ p₁ s₂ p', Yields ((Compiler.ofDepth env depth).overlayStated env r.schema e t) p s₁ p₁ ∧
      Yields ((Compiler.ofDepth env depth).overlayStatedArray env s₁ e t) p₁ s₂ p' ∧
      s.facets.defaultValue = some (commaSeparated text) ∧ q = p' ∧
      ∀ (l : LiteralType) (type : SchemaType), type ∈ [.string, .integer, .boolean, .number] →
        l.type = some type →
          (SettlesPieces l e.subject text p' q s.facets.defaultValue ↔
            type = .string ∧ ∀ piece ∈ pieces text, Coerce.fits l.format piece.toList = true) := by
  obtain ⟨inline, bare⟩ := (Compiler.gives_ofDepth (compositional_array env.types) depth).resolve
    resolved item items
  obtain ⟨value, s₁, p₁, s₂, first, second⟩ :=
    defaultValue_of_bind unstated bound plain inline bare hm written array
  refine ⟨s₁, p₁, s₂, q, first, second, value, rfl, fun l type scalar typed => ?_⟩
  rw [value]
  exact settlesPieces_iff scalar typed

end

/-- Only what is built in. -/
def builtIn : Environment := ⟨Universe.initial .standard, {}⟩

/-- Limits that a configuration binds. -/
def limitsOf (text : String) : Element where
  name := "limits"
  directives := [(.bindable, [("default", .str text)])]

def isListOf (type : SchemaType) (s : Schema) : Bool :=
  !s.isRef && s.type == some .array && s.items.any (·.type == some type)

/-- The schema of a list, and what it becomes as that of the limits. -/
def boundLimits (item text : String) : PassM (Option (Resolved × Schema)) := do
  let c := Compiler.ofDepth builtIn 3
  match ← c.resolve (some (limitsOf text)) (.generic "list" [.plain item]) {} with
  | none => pure none
  | some r =>
    let s ← c.bind builtIn (limitsOf text) (.generic "list" [.plain item]) r.schema r.nullable
    pure (some (r, s))

/-- Limits that a list is bound to, both before and after with items of a type. -/
structure BindsLimits (item text : String) (type : SchemaType) (r : Resolved) (i : Schema)
    (p : Pass) (s : Schema) (q : Pass) : Prop where
  resolved : Yields ((Compiler.ofDepth builtIn 3).resolve (some (limitsOf text))
    (.generic "list" [.plain item]) {}) {} (some r) p
  items : r.schema.items = some i
  typed : i.type = some type
  bound : Yields ((Compiler.ofDepth builtIn 3).bind builtIn (limitsOf text)
    (.generic "list" [.plain item]) r.schema r.nullable) p s q
  written : s.isRef = false
  array : s.type = some .array

theorem exists_bindsLimits {item text : String} {type : SchemaType}
    (runs : passes (boundLimits item text) {} (fun found => found.any fun pair =>
      isListOf type pair.1.schema && isListOf type pair.2) = true) :
    ∃ r i p s q, BindsLimits item text type r i p s q := by
  obtain ⟨found, yields, tested⟩ := exists_of_passes runs
  obtain ⟨⟨r, s⟩, rfl, holds⟩ := (Option.any_eq_true _ _).mp tested
  simp only [isListOf, Bool.and_eq_true, Bool.not_eq_true', beq_iff_eq, Option.any_eq_true] at holds
  obtain ⟨⟨-, i, items, typed⟩, ⟨written, array⟩, -⟩ := holds
  obtain ⟨resolved, p, resolves, yields⟩ := yields_bind.mp yields
  cases resolved with
  | none => cases (yields_pure.mp yields).1
  | some r' =>
    obtain ⟨s', _, bound, yields⟩ := yields_bind.mp yields
    obtain ⟨same, rfl⟩ := yields_pure.mp yields
    obtain ⟨rfl, rfl⟩ := Prod.mk.inj (Option.some.inj same)
    exact ⟨r', i, p, s', _, resolves, items, typed, bound, written, array⟩

/-- Words are texts, and settled. -/
theorem settlesPieces_iff_of_bind_words : ∃ r i p s q,
    BindsLimits "string" "a, b" .string r i p s q ∧
    ∃ p', s.facets.defaultValue = some (commaSeparated "a, b") ∧ q = p' ∧
      (SettlesPieces ⟨i.type, i.facets.format⟩ "limits" "a, b" p' q s.facets.defaultValue ↔
        SchemaType.string = .string ∧
          ∀ piece ∈ pieces "a, b", Coerce.fits i.facets.format piece.toList = true) := by
  have runs : passes (boundLimits "string" "a, b") {} (fun found => found.any fun pair =>
      isListOf .string pair.1.schema && isListOf .string pair.2) = true := by
    decide +kernel
  obtain ⟨r, i, p, s, q, binds⟩ := exists_bindsLimits runs
  obtain ⟨_, _, _, p', -, -, value, same, settles⟩ := settlesPieces_iff_of_bind (by rfl) (by rfl)
    (by decide) binds.resolved binds.items binds.bound binds.written binds.array
  exact ⟨r, i, p, s, q, binds, p', value, same, settles _ _ (by decide) binds.typed⟩

/-- Integers in plain text are texts, and nothing is reported. -/
theorem not_settlesPieces_integers : ∃ r i p s q,
    BindsLimits "int" "1, 2" .integer r i p s q ∧
      ¬ SettlesPieces ⟨i.type, i.facets.format⟩ "limits" "1, 2" p q s.facets.defaultValue := by
  have runs : passes (boundLimits "int" "1, 2") {} (fun found => found.any fun pair =>
      isListOf .integer pair.1.schema && isListOf .integer pair.2) = true := by
    decide +kernel
  obtain ⟨r, i, p, s, q, binds⟩ := exists_bindsLimits runs
  refine ⟨r, i, p, s, q, binds, ?_⟩
  obtain ⟨inline, bare⟩ := (Compiler.gives_ofDepth (compositional_array _) 3).resolve
    binds.resolved i binds.items
  obtain ⟨value, s₁, p₁, s₂, first, second⟩ := defaultValue_of_bind (by rfl) (by rfl) (by decide)
    inline bare binds.bound binds.written binds.array
  obtain ⟨rfl, rfl⟩ := yields_pure.mp first
  obtain ⟨rfl, rfl⟩ := yields_pure.mp second
  have scalar : SchemaType.integer ∈ [.string, .integer, .boolean, .number] := by decide
  rw [value, settlesPieces_iff scalar binds.typed]
  rintro ⟨texts, -⟩
  cases texts

end Schemata
