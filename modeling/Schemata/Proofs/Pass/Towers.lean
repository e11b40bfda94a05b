import Schemata.Proofs.Pass.Depth
import Schemata.Proofs.Pass.Lockstep
import Schemata.Proofs.Pass.Transparency
import Schemata.Proofs.Translation.Bare

/-!
# Towers of wrappers

Around a type may stand any number of wrappers, with bounded wildcards and parameters between them.
All that is left of such a tower when it is opened is its content and whether some wrapper is
optional and some wrapper is a stream.  The rest of the resolution is that of the content, but for
the subject of what is reported, so that the order of the wrappers makes no difference.
-/
namespace Schemata

open Pass

namespace Universe

/-- Whether a type is neither a wrapper nor a wildcard or a parameter. -/
def isContent (u : Universe) (t : TypeRef) : Bool :=
  match u.kindOf t with
  | .wrapper _ _ => false
  | .placeholder => false
  | .wildcard => false
  | _ => true

/-- A content inside of wrappers, which are listed from the outermost to the innermost one. -/
inductive Tower (u : Universe) (content : TypeRef) : List Wrapper → TypeRef → Prop where
  | content : Tower u content [] content
  | wrapper {name : String} {t : TypeRef} {args : List TypeRef} {directives : Directives}
      {w : Wrapper} {ws : List Wrapper}
      (wraps : u.wrapperOf? (.named name (t :: args) directives) = some w)
      (inside : Tower u content ws t) :
      Tower u content (w :: ws) (.named name (t :: args) directives)
  | placeholder {name : String} {t : TypeRef} {bounds : List TypeRef} {ws : List Wrapper}
      (inside : Tower u content ws t) : Tower u content ws (.placeholder name (t :: bounds))
  | wildcard {t : TypeRef} {bounds : List TypeRef} {ws : List Wrapper}
      (inside : Tower u content ws t) : Tower u content ws (.wildcard (t :: bounds))

end Universe

variable {env : Environment} {u : Universe} {content t : TypeRef} {ws : List Wrapper}

/-! ### Opening -/

/-- A content inside of these wrappers. -/
def Opened.ofTower (content : TypeRef) (ws : List Wrapper) : Opened where
  type := content
  nullable := decide (.optional ∈ ws)
  isStream := decide (.stream ∈ ws)

/-- One more wrapper is all that is known of it afterwards. -/
theorem Opened.ofTower_cons (w : Wrapper) :
    Opened.ofTower content (w :: ws) = (Opened.ofTower content ws).within w := by
  cases w <;> simp [ofTower, within]

theorem TypeRef.opened_of_isContent (h : u.isContent t = true) (subject : String) :
    t.opened u subject = (.ofTower t [], []) := by
  cases t with
  | named name args directives =>
    have plain : u.wrapperOf? (.named name args directives) = none := by
      unfold Universe.wrapperOf?
      split
      · rename_i kind
        rw [Universe.isContent, kind] at h
        cases h
      · rfl
    simp only [TypeRef.opened, plain]
    rfl
  | array element => rfl
  | placeholder name bounds => cases h
  | wildcard bounds => cases h

/-- A tower is opened to its content, and nothing is reported. -/
theorem Universe.Tower.opened (tower : u.Tower content ws t) (h : u.isContent content = true)
    (subject : String) : t.opened u subject = (.ofTower content ws, []) := by
  induction tower with
  | content => exact TypeRef.opened_of_isContent h subject
  | wrapper wraps inside ih =>
    simp only [TypeRef.opened, wraps, TypeRef.openedFirst, ih, Opened.ofTower_cons]
  | placeholder inside ih => exact ih
  | wildcard inside ih => exact ih

theorem openOccurrence_of_tower (tower : env.types.Tower content ws t)
    (h : env.types.isContent content = true) : openOccurrence env none t =
      (.ofTower (replaced env t.display content).1 ws, (replaced env t.display content).2) := by
  have opens : peeled env none t = (.ofTower content ws, []) := by
    simp only [peeled, Option.bind_none, overridden, tower.opened h, List.append_nil]
  rw [openOccurrence_eq, opens]
  rfl

/-! ### Subjects -/

/-- Two diagnostics that may differ in their subject. -/
structure Diagnostic.SameButSubject (d d' : Diagnostic) : Prop where
  code : d'.code = d.code
  message : d'.message = d.message
  context : d'.context = d.context

theorem Diagnostic.SameButSubject.refl (d : Diagnostic) : d.SameButSubject d := ⟨rfl, rfl, rfl⟩

/-- The message names the types and not the subject. -/
theorem sameButSubject_replaced (subject subject' : String) :
    List.Forall₂ Diagnostic.SameButSubject (replaced env subject t).2
      (replaced env subject' t).2 := by
  unfold replaced
  split
  · exact .nil
  · split
    · exact .nil
    · exact .cons ⟨rfl, rfl, rfl⟩ .nil

namespace Coupling

/-- Two runs that may differ in subjects and never part. -/
def subjects : Coupling := ⟨Diagnostic.SameButSubject, fun _ => False⟩

theorem fits_subjects (env : Environment) : subjects.Fits env env :=
  fits_refl .refl env

theorem pairing_subjects : Pairing subjects.like Eq subjects.Steps :=
  Steps.pairing .refl rfl fun same => same ▸ rfl

/-- What has been opened is resolved alike whatever its subject is. -/
theorem opened_subjects (depth : Nat) (t : TypeRef) (scope : Scope) (subject subject' : String) :
    subjects.Steps _ ((Compiler.ofDepth env depth).opened env subject none t scope)
      ((Compiler.ofDepth env depth).opened env subject' none t scope) := by
  cases represented : env.types.isRepresented t with
  | true =>
    rw [Compiler.opened_of_isRepresented represented subject subject']
    exact pairing_subjects.opened (.refl env)
      (fun call _ => (fits_subjects env).ofDepth_eq depth call) rfl fun _ => .refl _
  | false =>
    rw [Compiler.opened_of_not_isRepresented represented,
      Compiler.opened_of_not_isRepresented represented]
    exact pairing_subjects.bind (pairing_subjects.report (.cons ⟨rfl, rfl, rfl⟩ .nil))
      fun _ => pairing_subjects.pure none

end Coupling

/-! ### Resolving -/

/-- What is resolved of a content, seen from outside of the wrappers: an array if one of them is a
stream and no media type carries streams, and nullable if one of them is optional. -/
def Resolved.seenThrough (config : Config) (scope : Scope) (ws : List Wrapper) (r : Resolved) :
    Resolved where
  schema :=
    if .stream ∈ ws ∧ ∀ mediaType ∈ scope.mediaTypes, config.isStreaming mediaType = false then
      .array r.schema
    else r.schema
  nullable := decide (.optional ∈ ws)

theorem Resolved.seenThrough_congr {config : Config} {scope : Scope} {ws ws' : List Wrapper}
    (optional : .optional ∈ ws' ↔ .optional ∈ ws) (stream : .stream ∈ ws' ↔ .stream ∈ ws) :
    seenThrough config scope ws' = seenThrough config scope ws := by
  unfold seenThrough
  simp only [optional, stream]

theorem Compiler.seenThrough_wrapped (content : TypeRef) (ws : List Wrapper) (scope : Scope) :
    Resolved.seenThrough env.config scope ws ∘ wrapped env none scope (.ofTower content []) =
      wrapped env none scope (.ofTower content ws) := by
  funext s
  have bare (s : Schema) :
      streamed env.config scope (Opened.ofTower content []).isStream s = s := by
    simp [streamed, Opened.ofTower]
  have array (s : Schema) : streamed env.config scope (Opened.ofTower content ws).isStream s =
      if .stream ∈ ws ∧ ∀ mediaType ∈ scope.mediaTypes, env.config.isStreaming mediaType = false
        then .array s else s := by
    simp [streamed, Opened.ofTower]
  rw [Function.comp_apply, wrapped, wrapped, bare, array]
  rfl

/-- A tower is resolved in the same steps as its content. -/
theorem Universe.Tower.steps (tower : env.types.Tower content ws t)
    (h : env.types.isContent content = true) (depth : Nat) (scope : Scope) :
    Coupling.subjects.Steps _
      ((Compiler.ofDepth env depth).resolve none content scope >>= fun found =>
        pure (found.map (Resolved.seenThrough env.config scope ws)))
      ((Compiler.ofDepth env depth).resolve none t scope) := by
  have pairing := Coupling.pairing_subjects
  cases depth with
  | zero => exact Coupling.Steps.throw _
  | succ depth =>
    -- both are opened to one type, whatever the configuration puts in the place of the content
    have same : (replaced env t.display content).1 = (replaced env content.display content).1 :=
      replaced_subject env _ _ content
    simp only [Compiler.ofDepth, Compiler.occurrence, noting, openOccurrence_of_tower tower h,
      openOccurrence_of_tower .content h, same, bind_assoc, pure_bind, Option.map_map]
    generalize (replaced env content.display content).1 = opened
    refine pairing.bind (pairing.report (sameButSubject_replaced _ _)) fun _ => ?_
    refine pairing.bind (Coupling.opened_subjects depth opened scope _ _) fun found => ?_
    change Coupling.subjects.Steps _
      (pure (found.map (_ ∘ Compiler.wrapped env none scope (.ofTower opened []))))
      (pure (found.map (Compiler.wrapped env none scope (.ofTower opened ws))))
    rw [Compiler.seenThrough_wrapped]
    exact pairing.pure _

/-- What a type without an element is resolved to, and the state that is left behind. -/
def Pass.resolution (env : Environment) (depth : Nat) (scope : Scope) (p : Pass) (t : TypeRef) :
    Except Stop (Option Resolved) × Pass :=
  ((Compiler.ofDepth env depth).resolve none t scope).run.run p

/-- A tower comes to what its content comes to, seen through the wrappers, and leaves the same state
behind but for the subject of what is reported. -/
structure Pass.Collapses (env : Environment) (depth : Nat) (scope : Scope) (p : Pass)
    (content : TypeRef) (ws : List Wrapper) (t : TypeRef) : Prop where
  result : (resolution env depth scope p t).1 =
    (resolution env depth scope p content).1.map
      (Option.map (Resolved.seenThrough env.config scope ws))
  registry : (resolution env depth scope p t).2.registry =
    (resolution env depth scope p content).2.registry
  names : (resolution env depth scope p t).2.names = (resolution env depth scope p content).2.names
  diagnostics : List.Forall₂ Diagnostic.SameButSubject
    (resolution env depth scope p content).2.diagnostics
    (resolution env depth scope p t).2.diagnostics
  /-- The tower may be given another depth, as long as neither is given up on. -/
  depths {depth' : Nat} : (resolution env depth scope p content).1 ≠ .error .endless →
    (resolution env depth' scope p t).1 ≠ .error .endless →
      resolution env depth' scope p t = resolution env depth scope p t
  /-- All that matters of the wrappers is whether there is an optional one and a stream. -/
  order {ws' : List Wrapper} {t' : TypeRef} : env.types.Tower content ws' t' →
    (.optional ∈ ws' ↔ .optional ∈ ws) → (.stream ∈ ws' ↔ .stream ∈ ws) →
      (resolution env depth scope p t').1 = (resolution env depth scope p t).1

section

variable (tower : env.types.Tower content ws t) (h : env.types.isContent content = true)
  (depth : Nat) (scope : Scope) (p : Pass)

include tower h

theorem Universe.Tower.agreed : (resolution env depth scope p t).1 =
      (resolution env depth scope p content).1.map
        (Option.map (Resolved.seenThrough env.config scope ws)) ∧
    Coupling.subjects.Linked (resolution env depth scope p content).2
      (resolution env depth scope p t).2 := by
  have start : Coupling.subjects.Linked p p :=
    ⟨rfl, rfl, List.forall₂_same.mpr fun d _ => .refl d, id⟩
  have outcome := (tower.steps h depth scope).meets start
  rw [run_bind_pure] at outcome
  exact outcome.agreed fun _ => id

/-- Every tower collapses, to any depth, under any media types and view, and in any state. -/
theorem Pass.collapses_of_tower : Collapses env depth scope p content ws t := by
  obtain ⟨result, linked⟩ := tower.agreed h depth scope p
  refine ⟨result, linked.registry, linked.names, linked.diagnostics, fun ends ends' => ?_,
    fun other optional stream => ?_⟩
  · -- if the tower were given up on at this depth, so would be its content
    refine Compiler.resolve_eq_of_ends (fun endless => ends ?_) ends'
    have stopped := result.symm.trans endless
    generalize (resolution env depth scope p content).1 = found at stopped ⊢
    cases found with
    | ok found => cases stopped
    | error e =>
      cases stopped
      rfl
  · rw [(other.agreed h depth scope p).1, result, Resolved.seenThrough_congr optional stream]

end

/-! ### Results -/

/-- Pets, and results that stand for what they contain. -/
def petResults : Environment where
  types := (Universe.initial .standard).insertAll
    [{ name := "com.acme.Result", kind := .single, params := [{ name := "T" }] },
      { name := "com.acme.Pet", members := [{ name := "name", type := .plain "string" }] }]
  config := {}

def pet : TypeRef := .plain "com.acme.Pet"

/-- An optional result of some kind, of a stream of pets. -/
def petTower : TypeRef :=
  .generic "optional" [.wildcard [.generic "com.acme.Result" [.generic "stream" [pet]]]]

/-- A tower over pets is an array that admits null, and so is a stream of optional ones. -/
theorem Pass.collapses_of_tower_pets :
    (petResults.types.Tower pet [.optional, .single, .stream] petTower ∧
      petResults.types.isContent pet = true) ∧
    Collapses petResults 4 {} {} pet [.optional, .single, .stream] petTower ∧
    ((resolution petResults 4 {} {} petTower).1.toOption.bind id).map
        (fun r => (r.schema.isArray, r.nullable)) = some (true, true) ∧
    (resolution petResults 4 {} {} (.generic "stream" [.generic "optional" [pet]])).1 =
      (resolution petResults 4 {} {} petTower).1 := by
  have tower : petResults.types.Tower pet [.optional, .single, .stream] petTower :=
    .wrapper (by decide +kernel) (.wildcard (.wrapper (by decide +kernel)
      (.wrapper (by decide +kernel) .content)))
  have other : petResults.types.Tower pet [.stream, .optional]
      (.generic "stream" [.generic "optional" [pet]]) :=
    .wrapper (by decide +kernel) (.wrapper (by decide +kernel) .content)
  have content : petResults.types.isContent pet = true := by decide +kernel
  have collapses := collapses_of_tower tower content 4 {} {}
  exact ⟨⟨tower, content⟩, collapses, by decide +kernel,
    collapses.order other (by decide) (by decide)⟩

end Schemata
