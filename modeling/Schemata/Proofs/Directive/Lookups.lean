import Schemata.Directive.Canonical
import Schemata.Proofs.Assoc

/-!
# Canonical form, key by key

The steps of normalization take keys away and put others in their place, and move the rest about.
What stands under a key after a step depends on what stood under some keys before it, and not on
their order.  So it is with all steps one after the other: a key of a schema directive in canonical
form holds what was made of what stood under that key, and under one or two others.
-/
namespace Schemata

namespace Canonical

/-- What stands under the keys of a directive. -/
abbrev Lookups := String → Option Json

/-- A step of normalization, by what it makes of lookups. -/
def Renders (f : Directive → Directive) (F : Lookups → Lookups) : Prop :=
  ∀ d : Directive, d.keys.Nodup → (f d).keys.Nodup ∧ (f d).get? = F d.get?

theorem Renders.comp {f g : Directive → Directive} {F G : Lookups → Lookups}
    (hg : Renders g G) (hf : Renders f F) : Renders (fun d => g (f d)) (fun l => G (F l)) := by
  intro d distinct
  obtain ⟨distinct', same⟩ := hf d distinct
  obtain ⟨distinct'', same'⟩ := hg (f d) distinct'
  exact ⟨distinct'', same'.trans (congrArg G same)⟩

/-! ### Steps -/

/-- A value is taken from under one key, and what becomes of it is put under another. -/
def moved (old new : String) (f : Json → Option Json) (l : Lookups) (key : String) : Option Json :=
  (if new = key then (l old).bind f else none).or (if old = key then none else l key)

/-- A value is rewritten in its place. -/
def rewritten (old : String) (f : Json → Json) (l : Lookups) (key : String) : Option Json :=
  if old = key then (l key).map f else l key

/-- A flag is raised by a mode of access. -/
def accessed (l : Lookups) (key : String) : Option Json :=
  if ("readOnly" = key ∧ (l "accessMode").bind Json.asStr? = some "READ_ONLY") ∨
    ("writeOnly" = key ∧ (l "accessMode").bind Json.asStr? = some "WRITE_ONLY")
  then some (.bool true) else if "accessMode" = key then none else l key

/-- What property and mapping of a discriminator are gathered in, if they say anything. -/
def gathered (property mapping : Option Json) : Option Json :=
  let named := match property with
    | some (.str name) => if name = "" then [] else [("propertyName", Json.str name)]
    | _ => []
  let entries := match mapping with
    | some (.arr entries) => entries.filterMap Json.asObj?
    | _ => []
  let m := entries.foldl Mapping.add {}
  let refs := if m.refs.isEmpty then [] else [("mapping", Json.obj m.refs)]
  let schemas := if m.schemas.isEmpty then [] else [("mappingSchemas", Json.obj m.schemas)]
  match named ++ refs ++ schemas with
  | [] => none
  | members => some (.obj members)

def discriminated (l : Lookups) (key : String) : Option Json :=
  (if "discriminator" = key then
    gathered (l "discriminatorProperty") (l "discriminatorMapping") else none).or
  (if "discriminatorMapping" = key ∨ "discriminatorProperty" = key then none else l key)

section

variable {old new key : String} {l : Lookups}

theorem moved_new (f : Json → Option Json) (apart : old ≠ new) :
    moved old new f l new = ((l old).bind f).or (l new) := by
  rw [moved, if_pos rfl, if_neg apart]

theorem moved_old (f : Json → Option Json) (apart : new ≠ old) : moved old new f l old = none := by
  rw [moved, if_neg apart, if_pos rfl, Option.none_or]

theorem moved_same (f : Json → Option Json) : moved old old f l old = (l old).bind f := by
  rw [moved, if_pos rfl, if_pos rfl, Option.or_none]

theorem moved_other (f : Json → Option Json) (h : old ≠ key) (h' : new ≠ key) :
    moved old new f l key = l key := by
  rw [moved, if_neg h', if_neg h, Option.none_or]

theorem rewritten_same (f : Json → Json) : rewritten old f l old = (l old).map f :=
  if_pos rfl

theorem rewritten_other (f : Json → Json) (h : old ≠ key) : rewritten old f l key = l key :=
  if_neg h

theorem accessed_readOnly : accessed l "readOnly" =
    if (l "accessMode").bind Json.asStr? = some "READ_ONLY" then some (.bool true)
    else l "readOnly" := by
  simp [accessed]

theorem accessed_writeOnly : accessed l "writeOnly" =
    if (l "accessMode").bind Json.asStr? = some "WRITE_ONLY" then some (.bool true)
    else l "writeOnly" := by
  simp [accessed]

theorem accessed_accessMode : accessed l "accessMode" = none := by
  simp [accessed]

theorem accessed_other (h : "readOnly" ≠ key) (h' : "writeOnly" ≠ key) (h'' : "accessMode" ≠ key) :
    accessed l key = l key := by
  simp [accessed, h, h', h'']

theorem discriminated_gathered : discriminated l "discriminator" =
    (gathered (l "discriminatorProperty") (l "discriminatorMapping")).or (l "discriminator") := by
  simp [discriminated]

theorem discriminated_taken (h : key = "discriminatorMapping" ∨ key = "discriminatorProperty") :
    discriminated l key = none := by
  rcases h with rfl | rfl <;> simp [discriminated]

theorem discriminated_other (h : "discriminator" ≠ key) (h' : "discriminatorMapping" ≠ key)
    (h'' : "discriminatorProperty" ≠ key) : discriminated l key = l key := by
  simp [discriminated, h, h', h'']

end

section

variable {d : Directive}

theorem nodup_keys_replace {old : String} {f : Json → Option (String × Json)}
    (distinct : d.keys.Nodup) : (replace d old f).keys.Nodup := by
  unfold replace
  split
  · exact distinct
  · split
    · exact Assoc.nodup_keys_insert _ _ _ (Assoc.nodup_keys_erase distinct)
    · exact Assoc.nodup_keys_erase distinct

/-- Of what a step does not put back only the value that it takes is missing. -/
theorem get?_replace {old : String} {f : Json → Option (String × Json)} (distinct : d.keys.Nodup)
    (key : String) : (replace d old f).get? key =
      (((d.get? old).bind f).bind fun entry => if entry.1 = key then some entry.2 else none).or
        (if old = key then none else d.get? key) := by
  unfold replace
  cases stated : d.get? old with
  | none =>
    by_cases same : old = key
    · simp [← same, stated]
    · simp [same]
  | some value =>
    dsimp only
    rw [Option.bind_some]
    cases f value with
    | none => rw [Option.bind_none, Option.none_or, Assoc.get?_erase distinct]
    | some entry =>
      rw [Option.bind_some, Assoc.get?_insert, Assoc.get?_erase distinct]
      by_cases same : entry.1 = key <;> simp [same]

theorem renders_replace {old new : String} {f : Json → Option (String × Json)}
    (only : ∀ value entry, f value = some entry → entry.1 = new) :
    Renders (fun d => replace d old f) (moved old new fun value => (f value).map Prod.snd) := by
  intro d distinct
  refine ⟨nodup_keys_replace distinct, funext fun key => ?_⟩
  rw [get?_replace distinct, moved]
  cases d.get? old with
  | none => simp
  | some value =>
    rw [Option.bind_some, Option.bind_some]
    cases made : f value with
    | none => simp
    | some entry => rw [Option.bind_some, only value entry made, Option.map_some]

theorem renders_rename (old new : String) :
    Renders (fun d => d.rename old new) (moved old new some) := by
  have same : (fun d => Directive.rename d old new) =
      fun d => replace d old fun value => some (new, value) := by
    funext d
    unfold Directive.rename replace
    cases d.get? old <;> rfl
  rw [same]
  exact renders_replace fun value entry made => by rw [← Option.some.inj made]

theorem renders_rewrite (old : String) (f : Json → Json) :
    Renders (fun d => replace d old fun value => some (old, f value)) (rewritten old f) := by
  have moves : Renders (fun d => replace d old fun value => some (old, f value))
      (moved old old fun value => some (f value)) :=
    renders_replace fun value entry made => by rw [← Option.some.inj made]
  have same (l : Lookups) : moved old old (fun value => some (f value)) l = rewritten old f l := by
    funext key
    rw [moved, rewritten]
    by_cases here : old = key
    · subst here
      cases l old <;> simp
    · simp [here]
  exact fun d distinct => ⟨(moves d distinct).1, (moves d distinct).2.trans (same _)⟩

theorem renders_reference : Renders (fun d => replace d "ref" reference)
    (moved "ref" "$ref" fun value => (reference value).map Prod.snd) := by
  refine renders_replace fun value entry made => ?_
  unfold reference at made
  split at made
  · split at made <;> cases made
    rfl
  · cases made

theorem renders_additional : Renders (fun d => replace d "additionalProperties" additional)
    (moved "additionalProperties" "additionalProperties" fun value =>
      (additional value).map Prod.snd) := by
  refine renders_replace fun value entry made => ?_
  unfold additional at made
  split at made
  · split at made <;> cases made <;> rfl
  · cases made
    rfl

theorem renders_accessMode : Renders (fun d => replace d "accessMode" accessMode) accessed := by
  intro d distinct
  refine ⟨nodup_keys_replace distinct, funext fun key => ?_⟩
  rw [get?_replace distinct, accessed]
  cases d.get? "accessMode" with
  | none => simp
  | some mode =>
    rw [Option.bind_some, Option.bind_some, accessMode]
    by_cases read : mode.asStr? = some "READ_ONLY"
    · by_cases same : "readOnly" = key <;> simp [read, same]
    · by_cases write : mode.asStr? = some "WRITE_ONLY"
      · by_cases same : "writeOnly" = key <;> simp [write, same]
      · simp [read, write]

theorem discriminator_eq (d : Directive) : discriminator d =
    let rest := (d.erase "discriminatorProperty").erase "discriminatorMapping"
    match gathered (d.get? "discriminatorProperty") (d.get? "discriminatorMapping") with
    | none => rest
    | some group => rest.insert "discriminator" group := by
  unfold discriminator gathered
  dsimp only
  generalize (_ : List (String × Json)) ++ _ ++ _ = members
  cases members <;> rfl

theorem renders_discriminator : Renders discriminator discriminated := by
  intro d distinct
  have distinct' : ((d.erase "discriminatorProperty").erase "discriminatorMapping").keys.Nodup :=
    Assoc.nodup_keys_erase (Assoc.nodup_keys_erase distinct)
  have rest (key : String) :
      ((d.erase "discriminatorProperty").erase "discriminatorMapping").get? key =
        if "discriminatorMapping" = key ∨ "discriminatorProperty" = key then none
        else d.get? key := by
    rw [Assoc.get?_erase (Assoc.nodup_keys_erase distinct), Assoc.get?_erase distinct]
    by_cases mapping : "discriminatorMapping" = key <;> simp [mapping]
  rw [discriminator_eq]
  cases said : gathered (d.get? "discriminatorProperty") (d.get? "discriminatorMapping") with
  | none =>
    refine ⟨distinct', funext fun key => ?_⟩
    rw [rest, discriminated, said, ite_self, Option.none_or]
  | some group =>
    refine ⟨Assoc.nodup_keys_insert _ _ _ distinct', funext fun key => ?_⟩
    rw [Assoc.get?_insert, rest, discriminated, said]
    by_cases same : "discriminator" = key <;> simp [same]

end

/-! ### Schema directives -/

/-- The keys that are not left in canonical form. -/
def rawKeys : List String :=
  ["ref", "defaultValue", "allowableValues", "accessMode", "discriminatorProperty",
    "discriminatorMapping"]

/-- Those under which something else may stand then. -/
def rewrittenKeys : List String :=
  ["$ref", "default", "enum", "readOnly", "writeOnly", "additionalProperties", "discriminator",
    "extensions", "example"]

/-- What a schema directive holds in canonical form, by what it held before. -/
structure FormOf (d c : Directive) : Prop where
  distinct : c.keys.Nodup
  raw : ∀ key ∈ rawKeys, c.get? key = none
  reference : c.get? "$ref" =
    ((d.get? "ref").bind fun value => (reference value).map Prod.snd).or (d.get? "$ref")
  enumeration : c.get? "enum" = (d.get? "allowableValues").or (d.get? "enum")
  readOnly : c.get? "readOnly" =
    if (d.get? "accessMode").bind Json.asStr? = some "READ_ONLY" then some (.bool true)
    else d.get? "readOnly"
  writeOnly : c.get? "writeOnly" =
    if (d.get? "accessMode").bind Json.asStr? = some "WRITE_ONLY" then some (.bool true)
    else d.get? "writeOnly"
  additional : c.get? "additionalProperties" =
    (d.get? "additionalProperties").bind fun value => (additional value).map Prod.snd
  discriminator : c.get? "discriminator" =
    (gathered (d.get? "discriminatorProperty") (d.get? "discriminatorMapping")).or
      (d.get? "discriminator")
  extensions : c.get? "extensions" = (d.get? "extensions").map extensions
  exampleValue : c.get? "example" = (d.get? "example").map structured
  defaultValue : c.get? "default" =
    ((d.get? "defaultValue").or (d.get? "default")).map structured
  other : ∀ key, key ∉ rawKeys → key ∉ rewrittenKeys → c.get? key = d.get? key

theorem formOf_schema {d : Directive} (distinct : d.keys.Nodup) : FormOf d (schema d) := by
  obtain ⟨distinct', lookups⟩ :=
    ((renders_rewrite "default" structured).comp <| (renders_rewrite "example" structured).comp <|
      (renders_rewrite "extensions" Canonical.extensions).comp <| renders_discriminator.comp <|
      renders_additional.comp <| renders_accessMode.comp <|
      (renders_rename "allowableValues" "enum").comp <|
      (renders_rename "defaultValue" "default").comp renders_reference) d distinct
  change (schema d).get? = _ at lookups
  constructor
  case distinct => exact distinct'
  case other =>
    intro key raw others
    have apart {name : String} (h : name ∈ rawKeys ++ rewrittenKeys) : name ≠ key := by
      rintro rfl
      exact (List.mem_append.mp h).elim raw others
    simp only [rawKeys, rewrittenKeys, List.cons_append, List.nil_append, List.forall_mem_cons]
      at apart
    simp [lookups, moved, rewritten, accessed, discriminated, apart]
  case raw =>
    simp (disch := decide) [lookups, moved_old, moved_other, rewritten_other, accessed_accessMode,
      accessed_other, discriminated_taken, discriminated_other, rawKeys]
  all_goals
    simp (disch := decide) only [lookups, moved_new, moved_same, moved_other, rewritten_same,
      rewritten_other, accessed_readOnly, accessed_writeOnly, accessed_other, discriminated_gathered,
      discriminated_other, Option.bind_fun_some]

end Canonical

end Schemata
