import Schemata.Proofs.Directive.Emptiness
import Schemata.Proofs.Pass.Extensions
import Schemata.Proofs.Pass.Literals

/-!
# Empty texts in schema directives

A schema directive is laid over a schema by what it answers, so that two directives that answer the
same lead to the same, whatever compiler they are laid over with.  An empty text under a key does
what the absence of the key does, unless it is heeded.
-/
namespace Schemata

open Pass

/-! ### Literals by what stands under their keys -/

namespace LiteralType

variable (l : LiteralType) (subject : String)

/-- A single literal, or else the one that was there. -/
def single (old : Option Json) : Option Json → Option Json × Diagnostics
  | some value => ((l.literal subject value).1.or old, (l.literal subject value).2)
  | none => (old, [])

/-- The literals of a list, or else those that were there. -/
def listed (old : Option (List Json)) : Option Json → Option (List Json) × Diagnostics
  | some (.arr items) => ((l.literals subject items).1.or old, (l.literals subject items).2)
  | _ => (old, [])

/-- The values of an enumeration: a lone text is a list of what it is read as, if anything. -/
def enumerated (old : Option (List Json)) : Option Json → Option (List Json) × Diagnostics
  | some (.arr items) => ((l.literals subject items).1.or old, (l.literals subject items).2)
  | some (.str raw) =>
    ((l.literal subject (.str raw)).1.map ([·]), (l.literal subject (.str raw)).2)
  | _ => (old, [])

end LiteralType

theorem Facets.withLiterals_eq (f : Facets) (d : Directive) (l : LiteralType) (subject : String) :
    f.withLiterals d l subject =
      ({ f with
          enumValues := (l.enumerated subject f.enumValues (d.get? "enum")).1
          exampleValue := (l.single subject f.exampleValue (d.get? "example")).1
          examples := (l.listed subject f.examples (d.get? "examples")).1
          defaultValue := (l.single subject f.defaultValue (d.get? "default")).1 },
        (l.enumerated subject f.enumValues (d.get? "enum")).2 ++
          (l.single subject f.exampleValue (d.get? "example")).2 ++
          (l.listed subject f.examples (d.get? "examples")).2 ++
          (l.single subject f.defaultValue (d.get? "default")).2) :=
  rfl

/-- The schema without the values that it lists. -/
def Schema.unlisted (s : Schema) : Schema := { s with facets.enumValues := none }

/-! ### The same answers -/

section

variable {d d' : Directive} (h : ∀ key, Alike (d.get? key) (d'.get? key))

include h

theorem Directive.raised_of_alike (key : String) (old : Option Bool) :
    d.raised key old = d'.raised key old := by
  rw [raised, raised, flag?_of_alike (h key)]

theorem Labels.overlaid_of_alike (l : Labels) (detached : Bool) :
    l.overlaid d detached = l.overlaid d' detached := by
  simp only [overlaid, Directive.raised_of_alike h, Directive.text?_of_alike (h _),
    Directive.section?_of_alike (h _)]

theorem Facets.overlaid_of_alike (f : Facets) : f.overlaid d = f.overlaid d' := by
  simp only [overlaid, Directive.raised_of_alike h, Directive.text?_of_alike (h _),
    Directive.number?_of_alike (h _), Directive.count?_of_alike (h _)]

theorem Schema.overlaid_of_alike (s : Schema) (detached : Bool) (subject : String) :
    s.overlaid d detached subject = s.overlaid d' detached subject := by
  simp only [overlaid, overlaidType, Labels.overlaid_of_alike h, Facets.overlaid_of_alike h,
    Directive.text?_of_alike (h _), Directive.texts_of_alike (h _)]

theorem Facets.withLiterals_of_alike (f : Facets) (l : LiteralType) (subject : String)
    (values : d.get? "enum" = d'.get? "enum") :
    f.withLiterals d l subject = f.withLiterals d' l subject := by
  rw [withLiterals_eq, withLiterals_eq, values, (h "example").read (l.single subject _) rfl,
    (h "examples").read (l.listed subject _) rfl, (h "default").read (l.single subject _) rfl]

namespace Compiler

variable (c : Compiler) (s : Schema) (subject : String)

theorem withDiscriminator_of_alike :
    c.withDiscriminator s d subject = c.withDiscriminator s d' subject := by
  rw [withDiscriminator, withDiscriminator, Directive.section?_of_alike (h _)]

theorem withExtensions_of_alike : withExtensions s d = withExtensions s d' := by
  rw [withExtensions, withExtensions, Directive.section?_of_alike (h _)]

theorem withNot_of_alike : c.withNot s d subject = c.withNot s d' subject := by
  rw [withNot, withNot, Directive.text?_of_alike (h _)]

theorem withAlternatives_of_alike :
    c.withAlternatives s d subject = c.withAlternatives s d' subject := by
  simp only [withAlternatives, Directive.texts_of_alike (h _)]

end Compiler

end

/-! ### Laying a directive over a schema -/

namespace Compiler

/-- What a directive says before it comes to further properties. -/
def overlayFirst (c : Compiler) (env : Environment) (s : Schema) (d : Directive)
    (element : Option Element) (t : TypeRef) : PassM Schema := do
  let subject := subjectOf element t
  let s ← Pass.noting (s.overlaid d (!(element.any Element.isMember)) subject)
  let s ← Pass.noting (s.withLiterals env (← get).registry d subject t)
  let s ← c.withDiscriminator s d subject
  pure (withExtensions s d)

/-- What it says after that. -/
def overlayLast (c : Compiler) (s : Schema) (d : Directive) (subject : String) : PassM Schema := do
  let s ← c.withNot s d subject
  c.withAlternatives s d subject

variable (c : Compiler) (env : Environment) (s : Schema) (element : Option Element) (t : TypeRef)

theorem overlay_eq (d : Directive) : c.overlay env s d element t =
    c.overlayFirst env s d element t >>= fun s =>
      c.withAdditional s d (subjectOf element t) >>= fun s =>
        c.overlayLast s d (subjectOf element t) := by
  simp only [overlay, overlayFirst, overlayLast, bind_assoc, pure_bind]

variable {d d' : Directive}

theorem overlayFirst_of_alike (h : ∀ key, Alike (d.get? key) (d'.get? key))
    (values : d.get? "enum" = d'.get? "enum") :
    c.overlayFirst env s d element t = c.overlayFirst env s d' element t := by
  simp only [overlayFirst, Schema.overlaid_of_alike h, Schema.withLiterals,
    Facets.withLiterals_of_alike h _ _ _ values, withDiscriminator_of_alike h,
    withExtensions_of_alike h]

theorem overlayLast_of_alike (h : ∀ key, Alike (d.get? key) (d'.get? key)) (subject : String) :
    c.overlayLast s d subject = c.overlayLast s d' subject := by
  simp only [overlayLast, withNot_of_alike h, withAlternatives_of_alike h]

/-- Directives that give the same answers do the same. -/
theorem overlay_of_saysAs (h : d.SaysAs d') :
    c.overlay env s d element t = c.overlay env s d' element t := by
  simp only [overlay_eq, overlayFirst_of_alike c env s element t h.alike h.listed, withAdditional,
    h.additional, overlayLast_of_alike c _ h.alike]

/-- Values that are listed as an empty text leave none. -/
theorem overlay_of_listsNone (h : d.ListsNone d') :
    c.overlay env s d element t = c.overlay env s.unlisted d' element t := by
  have first (detached : Bool) (subject : String) : s.unlisted.overlaid d' detached subject =
      ((s.overlaid d detached subject).1.unlisted, (s.overlaid d detached subject).2) := by
    rw [← Schema.overlaid_of_alike h.alike]
    rfl
  have literals (s : Schema) (r : Registry) (subject : String) :
      s.unlisted.withLiterals env r d' subject t = s.withLiterals env r d subject t := by
    have read (l : LiteralType) : s.unlisted.facets.withLiterals d' l subject =
        s.facets.withLiterals d l subject := by
      rw [Facets.withLiterals_eq, Facets.withLiterals_eq, h.listed, h.unlisted,
        (h.alike "example").read (l.single subject _) rfl,
        (h.alike "examples").read (l.listed subject _) rfl,
        (h.alike "default").read (l.single subject _) rfl]
      rfl
    have type : r.literalType? s.unlisted = r.literalType? s := by
      have ref : s.unlisted.isRef = s.isRef := rfl
      unfold Registry.literalType?
      rw [ref]
      cases s.isRef <;> rfl
    have same : literalType env.types r [s.unlisted] t = literalType env.types r [s] t := by
      rw [literalType, literalType, List.findSome?_cons, List.findSome?_cons, type]
    rw [Schema.withLiterals, Schema.withLiterals, same, read]
    rfl
  simp only [overlay_eq, overlayFirst, Pass.noting, first, literals, bind_assoc, pure_bind,
    withDiscriminator_of_alike h.alike, withExtensions_of_alike h.alike, withAdditional,
    h.additional, overlayLast_of_alike c _ h.alike]

/-- Further properties that are named an empty type for are reported and stay what they are. -/
theorem overlay_of_namesNone (h : d.NamesNone d') : c.overlay env s d element t =
    c.overlayFirst env s d' element t >>= fun s =>
      Pass.report [invalidValue (subjectOf element t)
        "Invalid type reference '': expected a type name at offset 0"] >>= fun _ =>
          c.overlayLast s d' (subjectOf element t) := by
  have named (subject : String) : c.named? subject "" =
      Pass.report [invalidValue subject
        "Invalid type reference '': expected a type name at offset 0"] >>= fun _ => pure none :=
    rfl
  simp only [overlay_eq, overlayFirst_of_alike c env s element t h.alike h.listed, withAdditional,
    h.named, named, bind_assoc, pure_bind, overlayLast_of_alike c _ h.alike]

end Compiler

/-! ### Reports that were made before -/

namespace Pass

/-- The pass after others have reported something. -/
def behind (ds : Diagnostics) (p : Pass) : Pass := { p with diagnostics := ds ++ p.diagnostics }

/-- What was reported before makes no difference to a step. -/
def Blind (α : Type) (m m' : PassM α) : Prop :=
  ∀ p ds, m'.run.run (p.behind ds) = ((m.run.run p).1, (m.run.run p).2.behind ds)

theorem pairing_blind : Pairing Eq Eq Blind where
  advised _ := rfl
  detached := rfl
  view same := same ▸ rfl
  pure _ _ _ := rfl
  report {ds ds'} same p before := by
    rw [List.forall₂_eq_eq_eq] at same
    rw [run_report, run_report, ← same]
    simp only [behind, List.append_assoc]
  look hf p ds := hf p (p.behind ds) rfl p ds
  bind {α β m m' f f'} hm hf p ds := by
    have first := hm p ds
    rw [run_bind, run_bind, first]
    cases m.run.run p with
    | mk result q =>
      cases result with
      | ok a => exact hf a q ds
      | error e => rfl

end Pass

/-! ### Where it makes a difference -/

namespace Compiler

variable (env : Environment) (s : Schema) (element : Option Element) (t : TypeRef) {d : Directive}

/-- Nothing that a directive names can be represented. -/
def mute : Compiler := ⟨fun _ _ _ => pure none, fun _ _ _ => pure none⟩

/-- Nothing stops a directive then. -/
theorem yields_overlay_mute (d : Directive) (p : Pass) :
    ∃ laid q, Yields (mute.overlay env s d element t) p laid q := by
  have trail : Trail (fun _ => True) fun _ o _ => o = none := {
    advised := fun _ => trivial
    refl := fun _ => rfl
    note := fun _ _ _ => rfl
    trans := fun _ h => h }
  have takes : Takes _ (mute.overlay env s d element t) :=
    trail.overlay fun call _ => by cases call <;> exact fun _ => rfl
  obtain ⟨laid, yields⟩ := exists_of_stop? (takes p)
  exact ⟨laid, _, yields⟩

theorem blind_overlayLast_mute (d : Directive) (subject : String) :
    Blind _ (mute.overlayLast s d subject) (mute.overlayLast s d subject) := by
  have pairs (call : Call) : call.Pairs Eq Blind mute mute := by
    cases call <;> exact fun _ _ => pairing_blind.pure none
  exact pairing_blind.bind (pairing_blind.withNot fun call _ => pairs call) fun _ =>
    pairing_blind.withAlternatives fun call _ => pairs call

/-- A type without a name is reported, and this is the only report of it. -/
theorem overlay_mute_ne_of_namesNone {d' : Directive} (h : d.NamesNone d') :
    mute.overlay env s d element t ≠ mute.overlay env s d' element t := by
  intro same
  obtain ⟨laid, q, unnamed⟩ := yields_overlay_mute env s element t d' {}
  have named := unnamed
  rw [← same, overlay_of_namesNone mute env s element t h] at named
  simp only [yields_bind, yields_report] at named
  simp only [overlay_eq, withAdditional, h.unnamed, pure_bind, yields_bind] at unnamed
  obtain ⟨s', p', first, last⟩ := unnamed
  obtain ⟨s'', p'', first', _, _, rfl, last'⟩ := named
  obtain ⟨same', rfl⟩ := Prod.mk.inj (first.symm.trans first')
  obtain rfl := Except.ok.inj same'
  -- both runs go on as they would with nothing reported before
  have after (ds : Diagnostics) :=
    blind_overlayLast_mute s' d' (subjectOf element t) { p' with diagnostics := [] } ds
  simp only [behind, List.append_nil] at after
  have short := (after p'.diagnostics).symm.trans last
  have long := (after _).symm.trans last'
  have lengths := congrArg (fun run => run.2.diagnostics.length) (short.trans long.symm)
  simp only [List.length_append, List.length_cons, List.length_nil] at lengths
  omega

variable {laid : Schema} {p q : Pass} {c : Compiler}

theorem enumValues_overlay (hm : Yields (c.overlay env s d element t) p laid q) :
    ∃ l : LiteralType, laid.facets.enumValues =
      (l.enumerated (subjectOf element t) s.facets.enumValues (d.get? "enum")).1 := by
  obtain ⟨_, facets⟩ := facets_overlay hm
  rw [facets, Facets.withLiterals_eq]
  exact ⟨_, rfl⟩

theorem defaultValue_overlay (hm : Yields (c.overlay env s d element t) p laid q) :
    ∃ l : LiteralType, laid.facets.defaultValue =
      (l.single (subjectOf element t) s.facets.defaultValue (d.get? "default")).1 := by
  obtain ⟨_, facets⟩ := facets_overlay hm
  rw [facets, Facets.withLiterals_eq]
  exact ⟨_, rfl⟩

theorem literal_ne_none {l : LiteralType} {subject : String} {value : Json}
    (stated : value ≠ .str "") : (l.literal subject value).1 ≠ none := by
  cases value with
  | str raw =>
    obtain ⟨_, read, -⟩ := LiteralType.settles_literal (l := l) subject fun empty =>
      stated (congrArg Json.str empty)
    rw [read]
    exact Option.some_ne_none _
  | null | bool | num | arr | obj => exact Option.some_ne_none _

/-- Values that were listed are lost to an empty text alone. -/
theorem enumerated_ne_none {l : LiteralType} {subject : String} {v : Option Json}
    (other : v ≠ some (.str "")) (values : List Json) :
    (l.enumerated subject (some values) v).1 ≠ none := by
  cases v with
  | none => exact Option.some_ne_none _
  | some value =>
    cases value with
    | arr items =>
      rw [LiteralType.enumerated]
      cases (l.literals subject items).1 <;> exact Option.some_ne_none _
    | str raw =>
      have stated : (Json.str raw) ≠ .str "" := fun empty => other (congrArg some empty)
      rw [LiteralType.enumerated, ne_eq, Option.map_eq_none_iff]
      exact literal_ne_none stated
    | null | bool | num | obj => exact Option.some_ne_none _

theorem structured_ne_empty {value : Json} (stated : value ≠ .str "") :
    Canonical.structured value ≠ .str "" := by
  cases value with
  | str raw =>
    by_cases kept : Canonical.structured (.str raw) = .str raw
    · rw [kept]
      exact stated
    · intro empty
      have composite := Canonical.isComposite_structured kept
      rw [empty] at composite
      cases composite
  | null | bool | num | arr | obj => exact stated

/-- Values that were listed are lost where an empty text lists none, and not elsewhere. -/
theorem overlay_mute_ne_of_listed {d' : Directive} (empty : d.get? "enum" = some (.str ""))
    (other : d'.get? "enum" ≠ some (.str "")) :
    mute.overlay env { facets := { enumValues := some [] } } d element t ≠
      mute.overlay env { facets := { enumValues := some [] } } d' element t := by
  intro same
  obtain ⟨laid, q, left⟩ :=
    yields_overlay_mute env { facets := { enumValues := some [] } } element t d' {}
  obtain ⟨_, kept⟩ := enumValues_overlay _ _ _ _ left
  rw [← same] at left
  obtain ⟨_, lost⟩ := enumValues_overlay _ _ _ _ left
  rw [empty] at lost
  exact enumerated_ne_none other _ (kept.symm.trans lost)

/-- There is a default where one is stated, and none where an empty text stands. -/
theorem overlay_mute_ne_of_default {d' : Directive} {value : Json}
    (empty : d.get? "default" = some (.str "")) (stated : d'.get? "default" = some value)
    (nonempty : value ≠ .str "") :
    mute.overlay env {} d element t ≠ mute.overlay env {} d' element t := by
  intro same
  obtain ⟨laid, q, left⟩ := yields_overlay_mute env {} element t d' {}
  obtain ⟨l, kept⟩ := defaultValue_overlay _ _ _ _ left
  rw [← same] at left
  obtain ⟨l', lost⟩ := defaultValue_overlay _ _ _ _ left
  rw [empty] at lost
  have gone : laid.facets.defaultValue = none := lost
  rw [gone, stated] at kept
  have read : (l.literal (subjectOf element t) value).1 = none := by
    simpa [LiteralType.single] using kept.symm
  exact literal_ne_none nonempty read

open Canonical

variable (distinct : d.keys.Nodup)

include distinct

/-- An empty text that is heeded makes a difference to some schema, over which the directive is laid
where nothing that it names can be represented. -/
theorem exists_overlay_mute_ne_of_heeds {key : String} (h : d.Heeds key) :
    ∃ s, mute.overlay env s (schema (d.insert key (.str ""))) element t ≠
      mute.overlay env s (schema (d.erase key)) element t := by
  have form := formOf_schema (Assoc.nodup_keys_insert d key (.str "") distinct)
  have form' := formOf_schema (Assoc.nodup_keys_erase distinct : (d.erase key).keys.Nodup)
  cases h with
  | listed sole =>
    refine ⟨_, overlay_mute_ne_of_listed env element t
      (listsNone_of_heeds distinct (.listed sole) (.inl rfl)).listed ?_⟩
    simp [form'.enumeration, Assoc.get?_erase distinct, sole]
  | allowed other =>
    refine ⟨_, overlay_mute_ne_of_listed env element t
      (listsNone_of_heeds distinct (.allowed other) (.inr rfl)).listed ?_⟩
    simpa [form'.enumeration, Assoc.get?_erase distinct] using other
  | defaulted other =>
    obtain ⟨value, stated⟩ : ∃ value, d.get? "default" = some value :=
      Option.ne_none_iff_exists'.mp fun unstated => other (.inl unstated)
    have nonempty : value ≠ .str "" := fun empty => other (.inr (empty ▸ stated))
    refine ⟨{}, overlay_mute_ne_of_default env element t ?_ ?_ (structured_ne_empty nonempty)⟩
    · rw [form.defaultValue, Assoc.get?_insert, if_pos rfl]
      rfl
    · rw [form'.defaultValue, Assoc.get?_erase distinct, Assoc.get?_erase distinct, if_pos rfl,
        if_neg (by decide), stated]
      rfl
  | additional =>
    exact ⟨{}, overlay_mute_ne_of_namesNone env _ element t (namesNone_of_additional distinct)⟩

end Compiler

namespace Directive

/-- What an empty text under a key does, for all compilers and targets.  The absence of the key does
the same exactly if the text is not heeded.  Where it is, values that it lists leave none, and other
defaults are not looked at; further properties are reported as those of a type without a name. -/
structure EmptyText (d : Directive) (key : String) (env : Environment) (element : Option Element)
    (t : TypeRef) : Prop where
  unset_iff : (∀ (c : Compiler) s,
      c.overlay env s (Canonical.schema (d.insert key (.str ""))) element t =
        c.overlay env s (Canonical.schema (d.erase key)) element t) ↔ ¬ d.Heeds key
  listed : d.Heeds key → key = "enum" ∨ key = "allowableValues" → ∀ (c : Compiler) s,
    c.overlay env s (Canonical.schema (d.insert key (.str ""))) element t =
      c.overlay env s.unlisted (Canonical.schema ((d.erase "allowableValues").erase "enum"))
        element t
  defaulted : key = "defaultValue" → ∀ (c : Compiler) s,
    c.overlay env s (Canonical.schema (d.insert key (.str ""))) element t =
      c.overlay env s (Canonical.schema ((d.erase "defaultValue").erase "default")) element t
  additional : key = "additionalProperties" → ∀ (c : Compiler) s,
    c.overlay env s (Canonical.schema (d.insert key (.str ""))) element t =
      c.overlayFirst env s (Canonical.schema (d.erase key)) element t >>= fun s =>
        Pass.report [Compiler.invalidValue (subjectOf element t)
          "Invalid type reference '': expected a type name at offset 0"] >>= fun _ =>
            c.overlayLast s (Canonical.schema (d.erase key)) (subjectOf element t)

/-- An empty text is taken for none, but for values that are listed, for a default beside which
there is another, and for a type of further properties. -/
theorem emptyText {d : Directive} (distinct : d.keys.Nodup) (key : String) (env : Environment)
    (element : Option Element) (t : TypeRef) : d.EmptyText key env element t where
  unset_iff := by
    constructor
    · intro same heeds
      obtain ⟨s, other⟩ :=
        Compiler.exists_overlay_mute_ne_of_heeds env element t distinct heeds
      exact other (same _ s)
    · exact fun unheeded c s =>
        c.overlay_of_saysAs env s element t (Canonical.saysAs_of_not_heeds distinct unheeded)
  listed heeds sort c s :=
    c.overlay_of_listsNone env s element t (Canonical.listsNone_of_heeds distinct heeds sort)
  defaulted same c s := by
    subst same
    exact c.overlay_of_saysAs env s element t (Canonical.saysAs_of_defaultValue distinct)
  additional same c s := by
    subst same
    exact c.overlay_of_namesNone env s element t (Canonical.namesNone_of_additional distinct)

/-- A directive that gives a title to an enumeration. -/
def titledStatus : Directive := [("title", .str "Status"), ("nullable", .str "false")]

/-- What the directive is laid over: two constants. -/
def overStatus (d : Directive) : PassM Schema :=
  (Compiler.ofDepth ⟨Universe.initial .standard, {}⟩ 1).overlay ⟨Universe.initial .standard, {}⟩
    { type := some .string, facets := { enumValues := some [.str "ACTIVE", .str "CLOSED"] } }
    (Canonical.schema d) none (.plain "string")

theorem emptyText_titledStatus : Assoc.keys titledStatus = ["title", "nullable"] ∧
    overStatus (titledStatus.insert "title" (.str "")) =
      overStatus (titledStatus.erase "title") := by
  have unheeded : ¬ titledStatus.Heeds "title" := fun heeds => absurd heeds.mem (by decide)
  exact ⟨rfl, ((emptyText (by decide) "title" _ _ _).unset_iff.mpr unheeded) _ _⟩

/-- An empty text in the place of the constants leaves none. -/
theorem not_unset_titledStatus :
    overStatus (titledStatus.insert "enum" (.str "")) ≠ overStatus (titledStatus.erase "enum") := by
  intro same
  have kept := congrArg (fun m => passes m {} fun s => s.facets.enumValues.isSome) same
  exact absurd kept (by decide +kernel)

end Directive

end Schemata
