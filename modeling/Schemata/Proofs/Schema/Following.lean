import Schemata.Pass.Members
import Schemata.Proofs.Assoc

/-!
# Following references

The properties behind a reference are looked up in the registry, and no name is followed twice.
As many hops as there are schemas, and one more, lead to all of them.
-/
namespace Schemata

namespace Schema

/-- Names that were met are not forgotten. -/
def Remembers (follow : Follow) : Prop := ∀ name seen, seen ⊆ (follow name seen).2

/-- Both ways to follow a name find the same, from some names on. -/
def FollowAlike (f g : Follow) (seen : List String) : Prop :=
  ∀ name later, seen ⊆ later → f name later = g name later

theorem FollowAlike.mono {f g : Follow} {seen later : List String} (h : FollowAlike f g seen)
    (sub : seen ⊆ later) : FollowAlike f g later :=
  fun name last hlast => h name last (fun _ hmem => hlast (sub hmem))

variable {f g : Follow}

mutual

theorem remembers_propertiesWith (hf : Remembers f) :
    (s : Schema) → (seen : List String) → seen ⊆ (propertiesWith f s seen).2
  | ⟨_, ref, _, _, _, _, properties, required, _, allOf, _, _, _⟩, seen => by
    unfold propertiesWith
    cases ref with
    | none => exact remembers_propertiesOfAll hf allOf seen
    | some path =>
      dsimp only
      split
      · exact hf _ seen
      · exact List.Subset.refl _

theorem remembers_propertiesOfAll (hf : Remembers f) :
    (all : List Schema) → (seen : List String) → seen ⊆ (propertiesOfAll f all seen).2
  | [], _ => List.Subset.refl _
  | s :: rest, seen => by
    rw [propertiesOfAll]
    exact List.Subset.trans (remembers_propertiesWith hf s seen)
      (remembers_propertiesOfAll hf rest _)

end

mutual

theorem propertiesWith_congr (hf : Remembers f) :
    (s : Schema) → {seen : List String} → FollowAlike f g seen →
      propertiesWith f s seen = propertiesWith g s seen
  | ⟨_, ref, _, _, _, _, properties, required, _, allOf, _, _, _⟩, seen, same => by
    unfold propertiesWith
    cases ref with
    | none =>
      dsimp only
      rw [propertiesOfAll_congr hf allOf same]
    | some path =>
      dsimp only
      split
      · exact same _ seen (List.Subset.refl _)
      · rfl

theorem propertiesOfAll_congr (hf : Remembers f) :
    (all : List Schema) → {seen : List String} → FollowAlike f g seen →
      propertiesOfAll f all seen = propertiesOfAll g all seen
  | [], _, _ => rfl
  | s :: rest, seen, same => by
    have later := same.mono (remembers_propertiesWith hf s seen)
    rw [propertiesOfAll, propertiesOfAll, ← propertiesWith_congr hf s same]
    dsimp only
    rw [propertiesOfAll_congr hf rest later]

end

variable {r : Registry}

theorem remembers_follow (r : Registry) (hops : Nat) : Remembers (follow r hops) := by
  induction hops with
  | zero => exact fun name seen => List.Subset.refl _
  | succ hops ih =>
    intro name seen
    rw [follow]
    split
    · exact List.Subset.refl _
    · split
      · exact List.subset_cons_self _ _
      · rename_i target _
        exact List.Subset.trans (List.subset_cons_self name seen)
          (remembers_propertiesOfAll ih target.allOf (name :: seen))

/-- Every hop but the last one meets a further schema. -/
theorem follow_add {hops : Nat} {seen : List String} (enough : r.schemas.unseen seen < hops)
    (more : Nat) (name : String) : follow r (hops + more) name seen = follow r hops name seen := by
  induction hops generalizing name seen with
  | zero => exact absurd enough (Nat.not_lt_zero _)
  | succ hops ih =>
    rw [Nat.add_right_comm, follow, follow]
    split
    · rfl
    · rename_i new
      split
      · rfl
      · rename_i target registered
        have fewer := Assoc.unseen_lt (Assoc.mem_of_get? registered)
          (List.subset_cons_self name seen) (by simpa using new) List.mem_cons_self
        have same : FollowAlike (follow r (hops + more)) (follow r hops) (name :: seen) := by
          intro inner later sub
          have within := Assoc.unseen_antitone (m := r.schemas) sub
          exact ih (by omega) inner
        rw [propertiesOfAll_congr (remembers_follow r _) target.allOf same]

theorem propertiesWith_follow (r : Registry) (s : Schema) (more : Nat) :
    propertiesWith (follow r (r.schemas.length + 1 + more)) s [] =
      propertiesWith (follow r (r.schemas.length + 1)) s [] := by
  refine propertiesWith_congr (remembers_follow r _) s fun name seen _ => follow_add ?_ more name
  exact Nat.lt_succ_of_le (Assoc.unseen_le_length r.schemas seen)

end Schema

end Schemata
