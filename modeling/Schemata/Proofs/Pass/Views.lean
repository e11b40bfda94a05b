import Mathlib.Data.List.Basic
import Schemata.Pass.Members
import Schemata.Proofs.Universe.Reachability

/-!
# More specific views

A member belongs to the views that its directive, or that of its owner, lists, and to all that
descend from one of them.  A view that descends from another one therefore shows whatever the other
shows; a member without views is shown under both or under none.
-/
namespace Schemata

namespace Member

variable {env : Environment} {owner : Decl} {m : Member} {special general : String}

theorem inView_of_isAssignable (above : env.types.isAssignable special general = true)
    (h : m.inView env owner (some general) = true) : m.inView env owner (some special) = true := by
  unfold inView at h ⊢
  dsimp only at h ⊢
  split at h
  · exact h
  · obtain ⟨listed, hlisted, descends⟩ := List.any_eq_true.mp h
    exact List.any_eq_true.mpr ⟨listed, hlisted, Universe.isAssignable_trans above descends⟩

theorem isVisible_of_isAssignable (above : env.types.isAssignable special general = true)
    (h : m.isVisible env owner (some general) = true) :
    m.isVisible env owner (some special) = true := by
  simp only [isVisible, Bool.and_eq_true] at h ⊢
  exact ⟨h.1, inView_of_isAssignable above h.2⟩

end Member

/-- Descent is reflexive and transitive, and a view shows whatever is shown under a view that it
descends from. -/
structure Environment.ViewsNest (env : Environment) : Prop where
  refl (view : String) : env.types.isAssignable view view = true
  trans {a b c : String} : env.types.isAssignable a b = true → env.types.isAssignable b c = true →
    env.types.isAssignable a c = true
  inView {special general : String} (d : Decl) (m : Member) :
    env.types.isAssignable special general = true →
      m.inView env d (some general) = true → m.inView env d (some special) = true
  /-- Whatever becomes a property under the general view does so under the special one. -/
  members {special general : String} (d : Decl) : env.types.isAssignable special general = true →
    (d.members.filter (·.isVisible env d (some general))).Sublist
      (d.members.filter (·.isVisible env d (some special)))

/-- Views nest in every universe, however its hierarchy loops, and under every configuration. -/
theorem viewsNest (env : Environment) : env.ViewsNest where
  refl := env.types.isAssignable_refl
  trans := Universe.isAssignable_trans
  inView _ _ above := Member.inView_of_isAssignable above
  members _ above := List.monotone_filter_right _ fun _ => Member.isVisible_of_isAssignable above

/-- Two views that extend each other, one that extends both, and one that has nothing to do with
them. -/
def loopedViews : Environment where
  types := (Universe.initial .standard).insertAll
    [{ name := "Views$Public", kind := .interface, interfaces := [.plain "Views$Internal"] },
      { name := "Views$Internal", kind := .interface, interfaces := [.plain "Views$Public"] },
      { name := "Views$Admin", kind := .interface, interfaces := [.plain "Views$Internal"] }]
  config := { defaultInclusion := false }

/-- A member of the public view. -/
def publicName : Member where
  name := "name"
  type := .plain "string"
  directives := [(.jsonView, [("value", .str "Views$Public")])]

/-- The view of administrators shows the name, as do the two views that it extends. -/
theorem viewsNest_loopedViews :
    (loopedViews.types.isAssignable "Views$Admin" "Views$Internal" = true ∧
      publicName.inView loopedViews { name := "Profile" } (some "Views$Internal") = true) ∧
    publicName.inView loopedViews { name := "Profile" } (some "Views$Admin") = true ∧
    publicName.inView loopedViews { name := "Profile" } (some "Views$Guest") = false := by
  have above : loopedViews.types.isAssignable "Views$Admin" "Views$Internal" = true := by
    decide +kernel
  have shown : publicName.inView loopedViews { name := "Profile" } (some "Views$Internal") =
      true := by
    decide +kernel
  exact ⟨⟨above, shown⟩, (viewsNest loopedViews).inView _ _ above shown, by decide +kernel⟩

end Schemata
