import Schemata.Proofs.Directive.Texts
import Schemata.Proofs.Naming.Mangling

/-!
# The vocabulary of a request

The types that a request can lead to stand in the request, in a declaration, or in a text of a
directive or of the configuration, or they are parts of such types.  There are no more of them than
what is counted for the depth of the request.
-/
namespace Schemata

/-- Types and texts that lead to no others. -/
structure Vocabulary (env : Environment) where
  types : List TypeRef
  texts : List String
  part {s t : TypeRef} : t ∈ types → s ∈ t.parts → s ∈ types
  named {text : String} {t : TypeRef} : text ∈ texts → TypeRef.parse? text = some t → t ∈ types
  value (p : Primitive) : .plain p.name ∈ types
  parent {name : String} {d : Decl} {t : TypeRef} :
    env.types.get? name = some d → t ∈ d.parents → t ∈ types
  memberType {name : String} {d : Decl} {m : Member} :
    env.types.get? name = some d → m ∈ d.members → m.type ∈ types
  memberTexts {name : String} {d : Decl} {m : Member} :
    env.types.get? name = some d → m ∈ d.members → m.directives.textsIn ⊆ texts
  ownTexts {name : String} {d : Decl} :
    env.types.get? name = some d → d.directives.textsIn ⊆ texts
  replacement {s : CustomSchema} : s ∈ env.config.customSchemas → s.replacement ∈ texts

/-- The types that a declaration is written with, its own name among them. -/
def Decl.written (name : String) (d : Decl) : List TypeRef :=
  .plain name :: (d.parents ++ d.members.map Member.type)

def Decl.textsIn (d : Decl) : List String :=
  d.directives.textsIn ++ d.members.flatMap (·.directives.textsIn)

namespace Budget

open Mangle

theorem weight_le_type (t : TypeRef) : weight t ≤ type t := by
  induction t using TypeRef.inductionOnParts with
  | step t ih =>
    have all {ts : List TypeRef} (h : ∀ s ∈ ts, weight s ≤ type s) :
        sumOf weight ts ≤ types ts := by
      induction ts with
      | nil => exact Nat.le_refl _
      | cons s rest ih =>
        rw [sumOf_cons, types]
        exact Nat.add_le_add (h s List.mem_cons_self)
          (ih fun s hs => h s (List.mem_cons_of_mem _ hs))
    have parts := all ih
    rw [TypeRef.weight_eq_succ]
    cases t <;> simp only [TypeRef.parts, type, types] at parts ⊢ <;> omega

theorem weights_le_types (ts : List TypeRef) : sumOf weight ts ≤ types ts := by
  induction ts with
  | nil => exact Nat.le_refl _
  | cons t rest ih =>
    rw [sumOf_cons, types]
    exact Nat.add_le_add (weight_le_type t) ih

theorem weights_parsed_le (texts : List String) :
    sumOf weight (texts.filterMap TypeRef.parse?) ≤ sumOf Json.textSize texts := by
  induction texts with
  | nil => exact Nat.le_refl _
  | cons text rest ih =>
    rw [sumOf_cons]
    cases hparse : TypeRef.parse? text with
    | none =>
      rw [List.filterMap_cons_none hparse]
      exact Nat.le_trans ih (Nat.le_add_left _ _)
    | some t =>
      rw [List.filterMap_cons_some hparse, sumOf_cons]
      exact Nat.add_le_add (Nat.le_succ_of_le (TypeRef.weight_le_of_parse? hparse)) ih

/-- What a declaration brings in is counted for it. -/
theorem written_le_decl (name : String) (d : Decl) :
    sumOf weight (d.written name) + sumOf Json.textSize d.textsIn ≤ decl d := by
  have members : sumOf weight (d.members.map Member.type) +
      sumOf Json.textSize (d.members.flatMap (·.directives.textsIn)) ≤ sumOf member d.members := by
    induction d.members with
    | nil => exact Nat.le_refl _
    | cons m rest ih =>
      have own := weight_le_type m.type
      have texts := m.directives.size_textsIn_le
      rw [List.map_cons, List.flatMap_cons, sumOf_cons, sumOf_append, sumOf_cons, member]
      omega
  have parents := weights_le_types d.parents
  have own := d.directives.size_textsIn_le
  rw [Decl.written, sumOf_cons, sumOf_append, Decl.textsIn, sumOf_append, decl]
  rw [show weight (.plain name) = 1 from rfl]
  omega

/-- The size of what a request can come to see. -/
def request (env : Environment) (element : Option Element) (t : TypeRef) : Nat :=
  declarations env.types + config env.config + type t
    + (element.map fun e => directives e.directives).getD 0

end Budget

namespace Vocabulary

/-- The texts of an environment and of an element. -/
def textsOf (env : Environment) (element : Option Element) : List String :=
  env.types.decls.flatMap (fun entry => entry.2.textsIn)
    ++ (env.config.customSchemas.map CustomSchema.replacement
      ++ (element.map fun e => e.directives.textsIn).getD [])

/-- The types that stand in a universe, in a request, or in their texts. -/
def rootsOf (env : Environment) (element : Option Element) (t : TypeRef) : List TypeRef :=
  t :: env.types.decls.flatMap (fun entry => Decl.written entry.1 entry.2)
    ++ (textsOf env element).filterMap TypeRef.parse?

def typesOf (env : Environment) (element : Option Element) (t : TypeRef) : List TypeRef :=
  (rootsOf env element t).flatMap TypeRef.occurrences

variable {env : Environment} {element : Option Element} {t : TypeRef}

theorem mem_typesOf {s root : TypeRef} (hroot : root ∈ rootsOf env element t)
    (h : s ∈ root.occurrences) : s ∈ typesOf env element t :=
  List.mem_flatMap.mpr ⟨root, hroot, h⟩

theorem mem_typesOf_of_written {name : String} {d : Decl} {s : TypeRef}
    (declared : env.types.get? name = some d) (h : s ∈ d.written name) :
    s ∈ typesOf env element t := by
  refine mem_typesOf ?_ s.mem_occurrences_self
  refine List.mem_append_left _ (List.mem_cons_of_mem _ (List.mem_flatMap.mpr ?_))
  exact ⟨(name, d), Assoc.mem_of_get? declared, h⟩

theorem length_typesOf :
    (typesOf env element t).length = sumOf Mangle.weight (rootsOf env element t) := by
  rw [typesOf, length_flatMap_eq_sumOf]
  exact congrArg (sumOf · _) (funext TypeRef.length_occurrences)

/-- What replaces a type is counted for the configuration. -/
theorem replacements_le (config : Config) :
    sumOf Json.textSize (config.customSchemas.map CustomSchema.replacement) ≤
      Budget.config config := by
  unfold Budget.config
  induction config.customSchemas with
  | nil => exact Nat.le_refl _
  | cons s rest ih =>
    rw [List.map_cons, sumOf_cons, sumOf_cons, Json.textSize]
    omega

theorem sizes_le (env : Environment) (element : Option Element) (t : TypeRef) :
    (typesOf env element t).length ≤ Budget.request env element t ∧
      (textsOf env element).length ≤ Budget.request env element t := by
  have declared :
      sumOf Mangle.weight (env.types.decls.flatMap fun entry => Decl.written entry.1 entry.2) +
      sumOf Json.textSize (env.types.decls.flatMap fun entry => entry.2.textsIn) ≤
        Budget.declarations env.types := by
    unfold Budget.declarations
    induction env.types.decls with
    | nil => exact Nat.le_refl _
    | cons entry rest ih =>
      have own := Budget.written_le_decl entry.1 entry.2
      rw [List.flatMap_cons, List.flatMap_cons, sumOf_append, sumOf_append, sumOf_cons]
      omega
  have stated : sumOf Json.textSize ((element.map fun e => e.directives.textsIn).getD []) ≤
      (element.map fun e => Budget.directives e.directives).getD 0 := by
    cases element with
    | none => exact Nat.le_refl _
    | some e => exact e.directives.size_textsIn_le
  have replaced := replacements_le env.config
  have texts : sumOf Json.textSize (textsOf env element) = sumOf Json.textSize
      (env.types.decls.flatMap fun entry => entry.2.textsIn) +
        (sumOf Json.textSize (env.config.customSchemas.map CustomSchema.replacement) +
          sumOf Json.textSize ((element.map fun e => e.directives.textsIn).getD [])) := by
    rw [textsOf, sumOf_append, sumOf_append]
  constructor
  · have parsed := Budget.weights_parsed_le (textsOf env element)
    have own := Budget.weight_le_type t
    rw [length_typesOf, rootsOf, sumOf_append, sumOf_cons, Budget.request]
    omega
  · have counted : (textsOf env element).length ≤ sumOf Json.textSize (textsOf env element) := by
      induction textsOf env element with
      | nil => exact Nat.le_refl _
      | cons text rest ih =>
        rw [List.length_cons, sumOf_cons, Json.textSize]
        omega
    rw [Budget.request]
    omega

/-- The vocabulary of a request. -/
def ofRequest (hu : env.types.Concrete) (element : Option Element) (t : TypeRef) :
    Vocabulary env where
  types := typesOf env element t
  texts := textsOf env element
  part h hs := by
    obtain ⟨root, hroot, inside⟩ := List.mem_flatMap.mp h
    exact mem_typesOf hroot (TypeRef.parts_subset_occurrences inside hs)
  named {text t'} htext hparse := by
    refine mem_typesOf ?_ t'.mem_occurrences_self
    exact List.mem_append_right _ (List.mem_filterMap.mpr ⟨text, htext, hparse⟩)
  value p := by
    obtain ⟨d, declared, -, -⟩ := hu.value p
    exact mem_typesOf_of_written declared List.mem_cons_self
  parent declared h :=
    mem_typesOf_of_written declared (List.mem_cons_of_mem _ (List.mem_append_left _ h))
  memberType declared h :=
    mem_typesOf_of_written declared (List.mem_cons_of_mem _ (List.mem_append_right _
      (List.mem_map.mpr ⟨_, h, rfl⟩)))
  memberTexts declared h := by
    refine fun text htext => List.mem_append_left _ (List.mem_flatMap.mpr ?_)
    exact ⟨_, Assoc.mem_of_get? declared, List.mem_append_right _
      (List.mem_flatMap.mpr ⟨_, h, htext⟩)⟩
  ownTexts declared := by
    refine fun text htext => List.mem_append_left _ (List.mem_flatMap.mpr ?_)
    exact ⟨_, Assoc.mem_of_get? declared, List.mem_append_left _ htext⟩
  replacement hs :=
    List.mem_append_right _ (List.mem_append_left _ (List.mem_map.mpr ⟨_, hs, rfl⟩))

end Vocabulary

end Schemata
