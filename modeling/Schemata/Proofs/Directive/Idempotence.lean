import Schemata.Proofs.Directive.Literals
import Schemata.Proofs.Text.Blanks

/-!
# Normalizing twice

What is in canonical form is left as it is by the handler that brought it there, but for the order
of its keys.  A key that was taken away is missing then, and a value that was read or rewritten is
one that is not touched: so the second pass takes nothing away and puts nothing in its place.  Of
array directives nothing is said: what they take over from below was not looked at as their own.
-/
namespace Schemata

/-- A handler that leaves alone what it has made. -/
structure Settles (handler : DirectiveHandler) : Prop where
  distinct {d : Directive} : d.keys.Nodup → (handler d).keys.Nodup
  again {d : Directive} : d.keys.Nodup → (handler (handler d)).Perm (handler d)

namespace Canonical

/-! ### Values -/

theorem structured_of_isComposite {value : Json} (composite : value.isComposite = true) :
    structured value = value := by
  cases value <;> first | rfl | cases composite

theorem structured_structured (value : Json) :
    structured (structured value) = structured value := by
  cases value with
  | str text =>
    by_cases kept : structured (.str text) = .str text
    · rw [kept, kept]
    · exact structured_of_isComposite (isComposite_structured kept)
  | null | bool | num | arr | obj => rfl

theorem extensionKey_of_isExtensionKey {key : String} (marked : isExtensionKey key = true) :
    extensionKey key = key :=
  if_pos marked

theorem Marked.extensions {members : Assoc String Json} (h : Marked members) :
    extensions (.obj members) = .obj members := by
  have same : members.map (fun m => (extensionKey m.1, m.2)) = members := by
    refine (List.map_congr_left fun m hm => ?_).trans (List.map_id members)
    rw [extensionKey_of_isExtensionKey (h.keys m.1 (List.mem_map_of_mem hm))]
    rfl
  rw [Canonical.extensions, same, Assoc.ofList_of_nodup h.distinct]

theorem extensions_extensions (value : Json) :
    extensions (extensions value) = extensions value := by
  cases made : extensions value with
  | obj members => exact (marked_of_extensions made).extensions
  | arr groups => cases value <;> cases made
  | null | bool | num | str => rfl

theorem additional_additional {value value' : Json}
    (made : (additional value).map Prod.snd = some value') :
    (additional value').map Prod.snd = some value' := by
  unfold additional at made
  split at made
  · rename_i text
    split at made
    · cases made
      rfl
    · cases made
    · rename_i untold
      cases made
      simp [additional, untold]
  · rename_i others
    cases made
    cases value with
    | str text => exact absurd rfl (others text)
    | null | bool | num | arr | obj => rfl

/-! ### Schema directives -/

/-- In canonical form of a canonical form the same stands under every key. -/
theorem FormOf.get?_eq {d c c' : Directive} (first : FormOf d c) (second : FormOf c c')
    (key : String) : c'.get? key = c.get? key := by
  have gone := first.raw
  simp only [rawKeys, List.forall_mem_cons] at gone
  by_cases raw : key ∈ rawKeys
  · rw [first.raw key raw, second.raw key raw]
  by_cases other : key ∈ rewrittenKeys
  · simp only [rewrittenKeys, List.mem_cons, List.not_mem_nil, or_false] at other
    rcases other with rfl | rfl | rfl | rfl | rfl | rfl | rfl | rfl | rfl
    · simp [second.reference, gone]
    · simp [second.defaultValue, gone, first.defaultValue, Function.comp_def, structured_structured]
    · simp [second.enumeration, gone]
    · simp [second.readOnly, gone]
    · simp [second.writeOnly, gone]
    · cases stated : c.get? "additionalProperties" with
      | none => rw [second.additional, stated, Option.bind_none]
      | some value =>
        rw [second.additional, stated, Option.bind_some]
        obtain ⟨_, -, made⟩ := Option.bind_eq_some_iff.mp (first.additional.symm.trans stated)
        exact additional_additional made
    · simp [second.discriminator, gone, gathered]
    · simp [second.extensions, first.extensions, Function.comp_def, extensions_extensions]
    · simp [second.exampleValue, first.exampleValue, Function.comp_def, structured_structured]
  · exact second.other key raw other

theorem settles_schema : Settles schema where
  distinct distinct := (formOf_schema distinct).distinct
  again distinct := by
    have first := formOf_schema distinct
    have second := formOf_schema first.distinct
    exact Assoc.perm_of_get?_eq second.distinct first.distinct (first.get?_eq second)

/-! ### Other directives -/

theorem settles_of_eq {handler : DirectiveHandler}
    (distinct : ∀ {d : Directive}, d.keys.Nodup → (handler d).keys.Nodup)
    (again : ∀ d, handler (handler d) = handler d) : Settles handler :=
  ⟨distinct, fun {d} _ => by rw [again d]⟩

theorem Renders.settles {handler : DirectiveHandler} {F : Lookups → Lookups}
    (renders : Renders handler F) (again : ∀ l, F (F l) = F l) : Settles handler where
  distinct distinct := (renders _ distinct).1
  again {d} distinct := by
    obtain ⟨distinct', first⟩ := renders d distinct
    obtain ⟨distinct'', second⟩ := renders _ distinct'
    refine Assoc.perm_of_get?_eq distinct'' distinct' fun key => ?_
    rw [second, first, again]

theorem renders_modify (key : String) (f : Json → Json) :
    Renders (fun d => d.modify key f) (rewritten key f) := fun d distinct =>
  ⟨(Assoc.keys_modify d key f).symm ▸ distinct, funext fun other => Assoc.get?_modify d key other f⟩

theorem settles_bindable : Settles bindable := by
  refine (renders_rename "defaultValue" "default").settles fun l => funext fun key => ?_
  by_cases old : "defaultValue" = key
  · simp [moved, ← old]
  · simp [moved, old]

/-- Blanks around a text are removed. -/
def unblanked : Json → Json
  | .str text => .str (Text.trimmed text)
  | value => value

theorem unblanked_unblanked (value : Json) : unblanked (unblanked value) = unblanked value := by
  cases value with
  | str text => exact congrArg Json.str (Text.trimmed_trimmed text)
  | null | bool | num | arr | obj => rfl

theorem settles_jsonProperty : Settles jsonProperty := by
  have renders := (renders_rename "defaultValue" "default").comp (renders_modify "value" unblanked)
  have trims : (fun value : Json => match value with
      | .str text => .str (Text.trimmed text)
      | value => value) = unblanked := by
    funext value
    cases value <;> rfl
  have same : jsonProperty =
      fun d => Directive.rename (Assoc.modify d "value" unblanked) "defaultValue" "default" := by
    rw [← trims]
    rfl
  rw [same]
  refine renders.settles fun l => funext fun key => ?_
  by_cases old : "defaultValue" = key
  · simp [moved, ← old]
  · by_cases trim : "value" = key
    · simp [moved, rewritten, ← trim, Function.comp_def, unblanked_unblanked]
    · simp [moved, rewritten, old, trim]

theorem settles_jsonView : Settles jsonView := by
  refine settles_of_eq (fun _ => List.pairwise_singleton _ _) fun d => ?_
  have nonempty : ∀ text ∈ d.texts "value", text ≠ "" := by
    intro text htext
    unfold Directive.texts at htext
    split at htext
    · split at htext
      · cases htext
      · rename_i stated
        exact List.mem_singleton.mp htext ▸ stated
    · exact of_decide_eq_true (List.mem_filter.mp htext).2
    · cases htext
  have read : ((d.texts "value").map Json.str).filterMap Json.asStr? = d.texts "value" := by
    rw [List.filterMap_map]
    exact List.filterMap_some
  have same : (jsonView d).texts "value" = d.texts "value" := by
    change (((d.texts "value").map Json.str).filterMap Json.asStr?).filter (· ≠ "") = _
    rw [read, List.filter_eq_self]
    exact fun text htext => decide_eq_true (nonempty text htext)
  rw [jsonView, same]
  rfl

theorem settles_unwrapped : Settles unwrapped := by
  have keys (d : Directive) : (unwrapped d).keys = ["prefix", "suffix", "enabled"] := rfl
  refine settles_of_eq (fun {d} _ => by rw [keys]; decide) fun d => ?_
  have kept (text : String) : (if text = "" then none else some text).getD "" = text := by
    split
    · rename_i empty
      exact empty.symm
    · rfl
  have text {key text : String} (stated : (unwrapped d).get? key = some (.str text)) :
      ((unwrapped d).text? key).getD "" = text := by
    rw [Directive.text?, stated]
    exact kept text
  have enabled : (unwrapped d).flag? "enabled" = some ((d.flag? "enabled").getD true) := rfl
  rw [unwrapped, text rfl, text rfl, enabled]
  rfl

theorem settles_expression : Settles expression := by
  refine settles_of_eq (fun {d} distinct => ?_) fun d => ?_
  · unfold expression
    split
    · exact distinct
    · exact (renders_rename "value" "regexp" d distinct).1
  · have done {d : Directive} (stated : d.contains "regexp" = true) : expression d = d :=
      if_pos stated
    cases stated : d.contains "regexp" with
    | true => rw [done stated, done stated]
    | false =>
      have renamed : expression d = d.rename "value" "regexp" := if_neg (by simp [stated])
      rw [renamed]
      cases value : d.get? "value" with
      | none =>
        have same : d.rename "value" "regexp" = d := by rw [Directive.rename, value]
        rw [same, renamed, same]
      | some text =>
        refine done ?_
        rw [Directive.rename, value, Assoc.contains, Assoc.get?_insert_same, Option.isSome_some]

theorem bound_eq_or (d : Directive) : bound d = d ∨ ∃ n, bound d = d.insert "value" (.num n) := by
  unfold bound
  split
  · split
    · exact .inr ⟨_, rfl⟩
    · exact .inl rfl
  · exact .inl rfl

theorem settles_bound : Settles bound := by
  refine settles_of_eq (fun {d} distinct => ?_) fun d => ?_
  · rcases bound_eq_or d with same | ⟨n, read⟩
    · rw [same]
      exact distinct
    · rw [read]
      exact Assoc.nodup_keys_insert _ _ _ distinct
  · rcases bound_eq_or d with same | ⟨n, read⟩
    · rw [same, same]
    · rw [read, bound, Assoc.get?_insert_same]

theorem count?_lt {d : Directive} {key : String} {n : Nat} (h : d.count? key = some n) :
    n < Nat.pow 2 64 := by
  unfold Directive.count? at h
  split at h
  · unfold Number.toUnsigned? at h
    split at h
    · split at h
      · rename_i small
        exact Option.some.inj h ▸ small
      · cases h
    · cases h
  · exact of_decide_eq_true (Option.filter_eq_some_iff.mp h).2
  · cases h

theorem settles_size : Settles size := by
  refine settles_of_eq (fun {d} _ => ?_) fun d => ?_
  · unfold size
    dsimp only
    cases d.count? "min" <;> cases d.count? "max" <;> simp [Assoc.keys]
  · have read {m : Directive} {key : String} {n : Nat} (small : n < Nat.pow 2 64)
        (stated : m.get? key = some (.ofNat n)) : m.count? key = some n := by
      rw [Directive.count?, stated]
      exact if_pos small
    have unread {m : Directive} {key : String} (missing : m.get? key = none) :
        m.count? key = none := by
      rw [Directive.count?, missing]
    cases min : d.count? "min" with
    | none =>
      cases max : d.count? "max" with
      | none =>
        have empty : size d = [] := by simp [size, min, max]
        rw [empty]
        rfl
      | some high => simp [size, min, max, read (count?_lt max), unread, Assoc.get?_cons]
    | some low =>
      cases max : d.count? "max" with
      | none => simp [size, min, max, read (count?_lt min), unread, Assoc.get?_cons]
      | some high =>
        simp [size, min, max, read (count?_lt min), read (count?_lt max), Assoc.get?_cons]

end Canonical

namespace Normalizer

/-- Every handler but that of array directives leaves alone what it has made. -/
theorem settles_standard {kind : DirectiveKind} (other : kind ≠ .arraySchema) :
    Settles (standard.normalize kind) := by
  have untouched : Settles fun d => d := Canonical.settles_of_eq id fun _ => rfl
  cases kind
  case arraySchema => exact absurd rfl other
  case schema => exact Canonical.settles_schema
  case jsonProperty => exact Canonical.settles_jsonProperty
  case bindable => exact Canonical.settles_bindable
  case jsonView => exact Canonical.settles_jsonView
  case unwrapped => exact Canonical.settles_unwrapped
  case email => exact Canonical.settles_expression
  case pattern => exact Canonical.settles_expression
  case min => exact Canonical.settles_bound
  case max => exact Canonical.settles_bound
  case decimalMin => exact Canonical.settles_bound
  case decimalMax => exact Canonical.settles_bound
  case size => exact Canonical.settles_size
  all_goals exact untouched

/-- A directive in canonical form is left as it is but for the order of its keys, unless it is one
of an array, and one of a schema has none of the keys left that are written for others. -/
theorem normalize_normalize {kind : DirectiveKind} (other : kind ≠ .arraySchema) {d : Directive}
    (distinct : d.keys.Nodup) :
    (standard.normalize kind d).keys.Nodup ∧
      (standard.normalize kind (standard.normalize kind d)).Perm (standard.normalize kind d) ∧
      (kind = .schema → ∀ key ∈ Canonical.rawKeys, key ∉ (standard.normalize kind d).keys) := by
  have settles := settles_standard other
  refine ⟨settles.distinct distinct, settles.again distinct, ?_⟩
  rintro rfl key raw left
  have gone := (Canonical.formOf_schema distinct).raw key raw
  rw [← Assoc.contains_iff_mem_keys, Assoc.contains] at left
  change (Assoc.get? (Canonical.schema d) key).isSome = true at left
  rw [gone] at left
  cases left

/-- A directive that states its default under both keys, and a discriminator in raw form. -/
def draftedOrder : Directive :=
  [("ref", .str "Order"), ("defaultValue", .str "[1]"), ("default", .str "0"),
    ("accessMode", .str "READ_ONLY"), ("additionalProperties", .str "FALSE"),
    ("discriminatorProperty", .str "kind"), ("extensions", .obj [("a", .null), ("x-a", .null)])]

theorem normalize_normalize_draftedOrder : DirectiveKind.schema ≠ .arraySchema ∧
    Assoc.keys draftedOrder = ["ref", "defaultValue", "default", "accessMode",
      "additionalProperties", "discriminatorProperty", "extensions"] ∧
    Assoc.keys (standard.normalize .schema draftedOrder) =
      ["discriminator", "$ref", "extensions", "readOnly", "default"] ∧
    (standard.normalize .schema (standard.normalize .schema draftedOrder)).Perm
      (standard.normalize .schema draftedOrder) := by
  refine ⟨by decide, rfl, ?_, (normalize_normalize (by decide) (by decide)).2.1⟩
  rfl

end Normalizer

end Schemata
