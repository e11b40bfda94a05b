import Mathlib.Data.List.Induction
import Schemata.Proofs.Pass.Integrity
import Schemata.Proofs.Translation.Backward

/-!
# Two orders of requests

Types that are asked for in two orders lead to the same names.  The schemas behind the names
are the same if no definition reads one that is registered after it; the properties of an
unwrapped member are such a reading where the type of the member is still in progress.
-/
namespace Schemata

namespace Pass

variable {env : Environment} {types types' : List TypeRef}

section

variable (perm : types.Perm types') (served : Served env types) (served' : Served env types')
  (apart : NamesApart env types (after env (requestsFor [] types)))

include perm served served' apart

/-- In both orders the same names are known. -/
theorem isKnown_eq_of_perm (name : String) :
    (after env (requestsFor [] types)).isKnown name =
      (after env (requestsFor [] types')).isKnown name := by
  have complete := served.complete apart
  have complete' := complete.of_perm served' perm.symm
  exact Bool.eq_iff_iff.mpr ⟨(complete'.shows_after served perm.subset).known,
    (complete.shows_after served' perm.symm.subset).known⟩

variable (back : LooksBack env types) (back' : LooksBack env types')

include back back'

/-- A schema is the same in the other order, if all that were registered before it are. -/
theorem same_schema {earlier later : Assoc String Schema} {name : String} {s : Schema}
    (split : (after env (requestsFor [] types)).registry.schemas = earlier ++ (name, s) :: later)
    (same : ∀ other s', Assoc.get? earlier other = some s' →
      (after env (requestsFor [] types')).registry.get? other = some s') :
    (after env (requestsFor [] types')).registry.get? name = some s := by
  have complete := served.complete apart
  have complete' := complete.of_perm served' perm.symm
  have shows := complete'.shows_after served perm.subset
  have registered : (name, s) ∈ (after env (requestsFor [] types)).registry.schemas := by
    rw [split]
    exact List.mem_append_right _ List.mem_cons_self
  -- the definition is built once more at the end of the other order
  obtain ⟨d, t, gives, depth, p, _, q, built, before⟩ := complete.built _ registered
  obtain ⟨found, ds, again⟩ := build_again built ((shows.trans before).reopened name)
  have first := back types' perm.symm served' earlier name s later split same d t gives depth found
    ds again
  obtain ⟨s', hs'⟩ := get?_of_isKnown complete'.idle
    (shows.known (isKnown_of_mem_schemas registered))
  obtain ⟨earlier', later', split'⟩ := List.append_of_mem (Assoc.mem_of_get? hs')
  have own (other : String) (s : Schema) (h : Assoc.get? earlier' other = some s) :
      (after env (requestsFor [] types')).registry.get? other = some s := by
    rw [Registry.get?, split', Assoc.get?_append, h, Option.some_or]
  have second := back' types' (.refl _) served' earlier' name s' later' split' own d t
    ((gives.mono perm.subset).later shows) depth found ds again
  rw [hs', ← first, second]

/-- Whatever is registered in one order is registered in the other. -/
theorem same_schemas {name : String} {s : Schema}
    (h : (after env (requestsFor [] types)).registry.get? name = some s) :
    (after env (requestsFor [] types')).registry.get? name = some s := by
  suffices all : ∀ entries, entries <+: (after env (requestsFor [] types)).registry.schemas →
      ∀ name s, Assoc.get? entries name = some s →
        (after env (requestsFor [] types')).registry.get? name = some s from
    all _ (List.prefix_refl _) name s h
  intro entries
  induction entries using List.reverseRecOn with
  | nil => exact fun _ name s h => by cases h
  | append_singleton earlier entry ih =>
    rintro ⟨later, split⟩ name s h
    rw [List.append_assoc] at split
    have before := ih ⟨_, split⟩
    rw [Assoc.get?_append] at h
    cases old : Assoc.get? earlier name with
    | some s' =>
      rw [old, Option.some_or] at h
      exact before name s (old.trans h)
    | none =>
      rw [old, Option.none_or] at h
      obtain rfl : (name, s) = entry := List.mem_singleton.mp (Assoc.mem_of_get? h)
      exact same_schema perm served served' apart back back' split.symm before

end

/-- Types that are answered in two orders without a numbered name lead to the same names, and
to the same schemas if no definition reads one that is registered after it. -/
theorem registry_eq_of_perm (env : Environment) {types types' : List TypeRef}
    (perm : types.Perm types') (served : Served env types) (served' : Served env types')
    (apart : NamesApart env types (after env (requestsFor [] types))) :
    (∀ name, (after env (requestsFor [] types)).registry.contains name =
      (after env (requestsFor [] types')).registry.contains name) ∧
    (LooksBack env types → LooksBack env types' → ∀ name,
      (after env (requestsFor [] types)).registry.get? name =
        (after env (requestsFor [] types')).registry.get? name) := by
  refine ⟨fun name => ?_, fun back back' name => ?_⟩
  · have known := isKnown_eq_of_perm perm served served' apart name
    simpa [isKnown, Registry.isInProgress, idle_after] using known
  · have complete' := (served.complete apart).of_perm served' perm.symm
    refine Option.ext fun s => ⟨fun h => ?_, fun h => ?_⟩
    · exact same_schemas perm served served' apart back back' h
    · exact same_schemas perm.symm served' served complete'.apart back' back h

end Pass

/-! ### Two partners -/

def ownerType : TypeRef := .plain "com.acme.Owner"

def petType : TypeRef := .plain "com.acme.Pet"

namespace Translation

open Pass

/-- The translation with the names of a pass that is asked for partners. -/
def partnerRun (types : List TypeRef) : Translation := ofRun partners [] types

theorem eq_owner_or_pet {t : TypeRef} (h : t ∈ [ownerType, petType]) :
    t = ownerType ∨ t = petType := by
  simpa using h

variable {types : List TypeRef}

/-- Nothing but the two partners is mentioned by their definitions. -/
theorem partner_of_instantiation (sub : types ⊆ [ownerType, petType]) {t : TypeRef}
    (h : (partnerRun types).Instantiation types t) : t ∈ [ownerType, petType] := by
  have own {t : TypeRef} (h : t ∈ [ownerType, petType]) :
      (partnerRun types).Every (· ∈ [ownerType, petType]) t := by
    rcases eq_owner_or_pet h with rfl | rfl <;>
      exact every_iff.mpr ((everyOpened_direct rfl rfl).mpr h)
  have pets : (partnerRun types).Every (· ∈ [ownerType, petType]) (.generic "list" [petType]) :=
    every_iff.mpr ((everyOpened_inside rfl rfl).mpr (own (by simp)))
  have below {t : TypeRef} (h : t ∈ [ownerType, petType]) :
      ∃ type, (partners.types.declOf? t).map (fun d =>
          ((partnerRun types).memberTypes d (partners.types.bindings t),
            (partnerRun types).ancestors d (partners.types.bindings t))) = some ([type], []) ∧
        (partnerRun types).Every (· ∈ [ownerType, petType]) type := by
    rcases eq_owner_or_pet h with rfl | rfl
    · exact ⟨.generic "list" [petType], rfl, pets⟩
    · exact ⟨ownerType, rfl, own (by simp)⟩
  induction h with
  | root ht hm => exact own (sub ht) _ hm
  | nested _ declared mentioned ih =>
    obtain ⟨type, computed, every⟩ := below ih
    have declared' : partners.types.declOf? _ = some _ := declared
    rw [declared', Option.map_some, Option.some.injEq, Prod.mk.injEq] at computed
    obtain ⟨-, ⟨own, hown, hm⟩ | ancestor⟩ := mentioned
    · obtain rfl := List.mem_singleton.mp (computed.1 ▸ hown)
      exact every _ hm
    · exact absurd (computed.2 ▸ ancestor) List.not_mem_nil

theorem namesApart_partners (sub : types ⊆ [ownerType, petType])
    (owner : (partnerRun types).name? ownerType = some "Owner")
    (pet : (partnerRun types).name? petType = some "Pet") :
    (partnerRun types).NamesApart types := by
  intro t t' name inst inst' hname hname'
  rcases eq_owner_or_pet (partner_of_instantiation sub inst) with rfl | rfl <;>
    rcases eq_owner_or_pet (partner_of_instantiation sub inst') with rfl | rfl
  · exact ⟨rfl, rfl⟩
  · exact absurd (owner.symm.trans (hname.trans (hname'.symm.trans pet))) (by decide)
  · exact absurd (pet.symm.trans (hname.trans (hname'.symm.trans owner))) (by decide)
  · exact ⟨rfl, rfl⟩

end Translation

namespace Pass

/-- In both orders the partners are registered alike, although another one is finished first. -/
theorem registry_eq_of_perm_partners :
    (([ownerType, petType] : List TypeRef).Perm [petType, ownerType] ∧
      Served partners [ownerType, petType] ∧ Served partners [petType, ownerType] ∧
      NamesApart partners [ownerType, petType]
        (after partners (requestsFor [] [ownerType, petType])) ∧
      LooksBack partners [ownerType, petType] ∧ LooksBack partners [petType, ownerType]) ∧
    ∀ name, (after partners (requestsFor [] [ownerType, petType])).registry.get? name =
      (after partners (requestsFor [] [petType, ownerType])).registry.get? name := by
  have bare : partners.types.isBare = true := by decide +kernel
  have perm : ([ownerType, petType] : List TypeRef).Perm [petType, ownerType] := .swap _ _ []
  have served : Served partners [ownerType, petType] := ⟨by decide +kernel, by decide +kernel⟩
  have served' : Served partners [petType, ownerType] := ⟨by decide +kernel, by decide +kernel⟩
  have apart : (Translation.partnerRun [ownerType, petType]).NamesApart [ownerType, petType] :=
    Translation.namesApart_partners (List.Subset.refl _) (by decide +kernel) (by decide +kernel)
  have apart' : (Translation.partnerRun [petType, ownerType]).NamesApart [petType, ownerType] :=
    Translation.namesApart_partners perm.symm.subset (by decide +kernel) (by decide +kernel)
  have own := apart.gives (fun _ => rfl) bare
  have back := Translation.looksBack_of_bare bare served apart
  have back' := Translation.looksBack_of_bare bare served' apart'
  exact ⟨⟨perm, served, served', own, back, back'⟩,
    (registry_eq_of_perm partners perm served served' own).2 back back'⟩

/-- The unwrapped pet of an owner, who is the owner of the pet. -/
def unwrappedPartners : Environment where
  types := (Universe.initial .standard).insertAll
    [{ name := "com.acme.Owner", members :=
        [{ name := "pet", type := .plain "com.acme.Pet", directives := [(.unwrapped, [])] }] },
      { name := "com.acme.Pet", members :=
        [{ name := "name", type := .plain "string" },
          { name := "owner", type := .plain "com.acme.Owner" }] }]
  config := {}

/-- Types lead to the same schemas in every order, if they are answered and no name gets a
number. -/
def OrderIndependent (env : Environment) : Prop :=
  ∀ types types', types.Perm types' → Served env types → Served env types' → ∀ name,
    (after env (requestsFor [] types)).registry.get? name =
      (after env (requestsFor [] types')).registry.get? name

theorem served_unwrappedPartners : Served unwrappedPartners [petType, ownerType] ∧
    Served unwrappedPartners [ownerType, petType] :=
  ⟨⟨by decide +kernel, by decide +kernel⟩, ⟨by decide +kernel, by decide +kernel⟩⟩

/-- The owner has the properties of the pet only if it is asked for first. -/
theorem not_orderIndependent_unwrappedPartners : ¬ OrderIndependent unwrappedPartners := by
  intro independent
  obtain ⟨served, served'⟩ := served_unwrappedPartners
  have same := independent [petType, ownerType] [ownerType, petType] (.swap _ _ []) served served'
    "Owner"
  have counts := congrArg (Option.map fun s => s.properties.length) same
  exact absurd counts (by decide +kernel)

end Pass

end Schemata
