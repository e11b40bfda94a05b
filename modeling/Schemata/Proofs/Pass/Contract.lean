import Schemata.Proofs.Pass.Growth
import Schemata.Proofs.Pass.Outcome

/-!
# Contracts of steps

What a step promises is said with a view to a later moment: of the states before it some
invariant is kept, and the value satisfies a condition.  References may then point to names
that are only in progress, because at the later moment they are all known.
-/
namespace Schemata

namespace Pass

theorem isKnown_withSchema (p : Pass) (name : String) (s : Schema) {other : String}
    (h : p.isKnown other = true) : (p.withSchema name s).isKnown other = true := by
  rw [isKnown, Bool.or_eq_true, Registry.contains, Assoc.contains_iff_mem_keys] at h ⊢
  have schemas : p.registry.schemas <+: (p.withSchema name s).registry.schemas :=
    schemas_prefix_register (p.registry.finish name) name s
  have inProgress : (p.withSchema name s).registry.inProgress = p.registry.inProgress.erase name :=
    inProgress_register (p.registry.finish name) name s
  by_cases same : other = name
  · refine .inl ?_
    subst same
    change other ∈ ((p.registry.finish other).register other s).2.schemas.keys
    simp only [Registry.register]
    split
    · rename_i hcontains
      rwa [Registry.contains, Assoc.contains_iff_mem_keys] at hcontains
    · simp [Assoc.keys]
  · rcases h with old | pending
    · exact .inl ((schemas.map Prod.fst).subset old)
    · refine .inr ?_
      rw [Registry.isInProgress, inProgress, List.contains_iff_mem] at *
      exact (List.mem_erase_of_ne same).mpr pending

theorem isKnown_withSchema_self (p : Pass) (name : String) (s : Schema) :
    (p.withSchema name s).isKnown name = true := by
  rw [isKnown, Bool.or_eq_true]
  refine .inl ?_
  change ((p.registry.finish name).register name s).2.contains name = true
  simp only [Registry.register]
  split
  · assumption
  · rw [Registry.contains, Assoc.contains_iff_mem_keys]
    simp [Assoc.keys]

/-- A new schema is the last one that is registered. -/
theorem mem_schemas_withSchema {p : Pass} {name : String} {s : Schema} {entry : String × Schema}
    (h : entry ∈ (p.withSchema name s).registry.schemas) :
    entry ∈ p.registry.schemas ∨ entry = (name, { s with name := some name }) := by
  change entry ∈ ((p.registry.finish name).register name s).2.schemas at h
  simp only [Registry.register] at h
  split at h
  · exact .inl h
  · simpa using h

/-- A moment to come: the states before it, and what is claimed of their schemas. -/
structure Horizon where
  before : Pass → Prop
  sound : Pass → Prop
  earlier {p q : Pass} : Grows p q → before q → before p
  unfinished {p : Pass} {name : String} {s : Schema} : before (p.withSchema name s) → before p
  unchanged {p q : Pass} : q.registry.schemas = p.registry.schemas → sound p → sound q

/-- Under a condition a step keeps what is claimed, and its value satisfies another one. -/
def Ensures (H : Horizon) (pre : Prop) (m : PassM α) (post : α → Prop) : Prop :=
  ∀ p a q, Yields m p a q → Grows p q ∧ (pre → H.before q → H.sound p → H.sound q ∧ post a)

namespace Ensures

variable {H : Horizon} {pre : Prop}

theorem weaken {pre' : Prop} {m : PassM α} {post post' : α → Prop} (h : Ensures H pre m post)
    (hpre : pre' → pre) (hpost : ∀ a, pre' → post a → post' a) : Ensures H pre' m post' := by
  intro p a q hm
  obtain ⟨grows, promise⟩ := h p a q hm
  refine ⟨grows, fun hpre' before sound => ?_⟩
  obtain ⟨later, ha⟩ := promise (hpre hpre') before sound
  exact ⟨later, hpost a hpre' ha⟩

theorem under {pre' : Prop} {m : PassM α} {post : α → Prop} (h : Ensures H pre m post)
    (hpre : pre' → pre) : Ensures H pre' m post :=
  h.weaken hpre fun _ _ ha => ha

/-- A promise that is made without a condition. -/
theorem always {m : PassM α} {post : α → Prop} (h : Ensures H True m post) :
    Ensures H pre m post :=
  h.under fun _ => trivial

theorem pure {a : α} {post : α → Prop} (h : pre → post a) : Ensures H pre (Pure.pure a) post := by
  intro p b q hm
  obtain ⟨rfl, rfl⟩ := yields_pure.mp hm
  exact ⟨.refl p, fun hpre _ sound => ⟨sound, h hpre⟩⟩

theorem throw {e : Stop} {post : α → Prop} : Ensures H pre (MonadExcept.throw e) post :=
  fun _ _ _ hm => absurd hm not_yields_throw

/-- The promises of one step are the conditions of the next. -/
theorem bind {m : PassM α} {f : α → PassM β} {mid : α → Prop} {post : β → Prop}
    (hm : Ensures H pre m mid) (hf : ∀ a, Ensures H (pre ∧ mid a) (f a) post) :
    Ensures H pre (m >>= f) post := by
  intro p b q h
  obtain ⟨a, p', first, second⟩ := yields_bind.mp h
  obtain ⟨grows, promise⟩ := hm p a p' first
  obtain ⟨grows', promise'⟩ := hf a p' b q second
  refine ⟨grows.trans grows', fun hpre before sound => ?_⟩
  obtain ⟨sound', ha⟩ := promise hpre (H.earlier grows' before) sound
  exact promise' ⟨hpre, ha⟩ before sound'

/-- A step that looks at the state sees one of which the claim holds. -/
theorem get : Ensures H pre MonadState.get fun p => H.sound p := by
  intro p r q h
  obtain ⟨rfl, rfl⟩ := yields_get.mp h
  exact ⟨.refl p, fun _ _ sound => ⟨sound, sound⟩⟩

theorem report (ds : Diagnostics) : Ensures H pre (Pass.report ds) fun _ => True := by
  intro p a q h
  have hq := yields_report.mp h
  subst hq
  exact ⟨.report p ds, fun _ _ sound => ⟨H.unchanged (p := p) rfl sound, trivial⟩⟩

theorem noting (found : α × Diagnostics) :
    Ensures H pre (Pass.noting found) fun a => a = found.1 :=
  (report found.2).bind fun _ => pure fun _ => rfl

/-- A loop keeps what each round keeps. -/
theorem foldlM {f : β → α → PassM β} {inv : β → Prop} {xs : List α} {b : β}
    (hf : ∀ b, ∀ a ∈ xs, Ensures H (pre ∧ inv b) (f b a) inv) (hb : pre → inv b) :
    Ensures H pre (xs.foldlM f b) inv := by
  have loop (b : β) : Ensures H (pre ∧ inv b) (xs.foldlM f b) inv := by
    induction xs generalizing b with
    | nil => exact pure fun hpre => hpre.2
    | cons x xs ih =>
      rw [List.foldlM_cons]
      refine (hf b x List.mem_cons_self).bind fun b' => ?_
      exact (ih (fun b a ha => hf b a (List.mem_cons_of_mem _ ha)) b').under fun h => ⟨h.1.1, h.2⟩
  exact (loop b).under fun hpre => ⟨hpre, hb hpre⟩

/-- A loop comes to what a loop without state comes to, if each round does. -/
theorem foldlM_option {f : β → α → PassM β} {g : β → α → Option β} {needs gives : α → Prop}
    {xs : List α}
    (hf : ∀ b, ∀ a ∈ xs, Ensures H (needs a) (f b a) fun b' => g b a = some b' ∧ gives a) (b : β) :
    Ensures H (∀ a ∈ xs, needs a) (xs.foldlM f b)
      fun b' => xs.foldlM g b = some b' ∧ ∀ a ∈ xs, gives a := by
  induction xs generalizing b with
  | nil => exact pure fun _ => ⟨rfl, fun _ ha => by cases ha⟩
  | cons x xs ih =>
    have rest := ih fun b a ha => hf b a (List.mem_cons_of_mem _ ha)
    simp only [List.foldlM_cons]
    apply ((hf b x List.mem_cons_self).under fun h => h x List.mem_cons_self).bind
    intro next
    refine (rest next).weaken (fun h a ha => h.1 a (List.mem_cons_of_mem _ ha))
      fun b' h hb' => ⟨?_, fun a ha => ?_⟩
    · rw [h.2.1]
      exact hb'.1
    · rcases List.mem_cons.mp ha with rfl | ha
      · exact h.2.2
      · exact hb'.2 a ha

theorem mapM {f : α → PassM β} {each : β → Prop} {xs : List α}
    (hf : ∀ a ∈ xs, Ensures H pre (f a) each) :
    Ensures H pre (xs.mapM f) fun ys => ∀ y ∈ ys, each y := by
  induction xs with
  | nil =>
    rw [List.mapM_nil]
    exact pure fun _ _ h => by cases h
  | cons x xs ih =>
    rw [List.mapM_cons]
    have rest := ih fun a ha => hf a (List.mem_cons_of_mem _ ha)
    apply (hf x List.mem_cons_self).bind
    intro y
    refine (rest.under fun h => h.1).bind fun ys => pure fun h => ?_
    intro z hz
    rcases List.mem_cons.mp hz with rfl | hz
    · exact h.1.2
    · exact h.2 z hz

end Ensures

end Pass

end Schemata
