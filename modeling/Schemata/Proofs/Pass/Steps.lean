import Schemata.Pass.Request

/-!
# Steps of a pass

A step yields a value and a later state, or it stops.  A computation is taken apart where
one step follows another: what a sequence yields was yielded by its parts.
-/
namespace Schemata

namespace Pass

/-- From one state a step ends with a value in another. -/
def Yields (m : PassM α) (p : Pass) (a : α) (q : Pass) : Prop := m.run.run p = (.ok a, q)

/-- The state after a step, whatever it comes to. -/
def stateAfter (m : PassM α) (p : Pass) : Pass := (m.run.run p).2

theorem run_bind (m : PassM α) (f : α → PassM β) (p : Pass) :
    (m >>= f).run.run p =
      match m.run.run p with
      | (.ok a, q) => (f a).run.run q
      | (.error e, q) => (.error e, q) := by
  change ExceptT.bindCont f (m.run.run p).1 (m.run.run p).2 = _
  cases m.run.run p with
  | mk result q => cases result <;> rfl

theorem run_bind_pure (m : PassM α) (f : α → β) (p : Pass) :
    (m >>= fun a => pure (f a)).run.run p = ((m.run.run p).1.map f, (m.run.run p).2) := by
  rw [run_bind]
  generalize m.run.run p = out
  obtain ⟨result, q⟩ := out
  cases result <;> rfl

theorem Yields.stateAfter {m : PassM α} {p q : Pass} {a : α} (h : Yields m p a q) :
    stateAfter m p = q := by
  rw [Pass.stateAfter, h]

@[simp] theorem yields_pure {a b : α} {p q : Pass} :
    Yields (pure a) p b q ↔ a = b ∧ p = q := by
  change (Except.ok a, p) = (Except.ok b, q) ↔ _
  simp

@[simp] theorem yields_bind {m : PassM α} {f : α → PassM β} {p q : Pass} {b : β} :
    Yields (m >>= f) p b q ↔ ∃ a p', Yields m p a p' ∧ Yields (f a) p' b q := by
  simp only [Yields, run_bind]
  constructor
  · intro h
    split at h
    · rename_i a p' hm
      exact ⟨a, p', hm, h⟩
    · cases h
  · rintro ⟨a, p', hm, hf⟩
    rw [hm]
    exact hf

@[simp] theorem yields_map {f : α → β} {m : PassM α} {p q : Pass} {b : β} :
    Yields (f <$> m) p b q ↔ ∃ a, Yields m p a q ∧ f a = b := by
  rw [← bind_pure_comp, yields_bind]
  simp only [yields_pure]
  constructor
  · rintro ⟨a, p', h, hb, rfl⟩
    exact ⟨a, h, hb⟩
  · rintro ⟨a, h, hb⟩
    exact ⟨a, q, h, hb, rfl⟩

@[simp] theorem not_yields_throw {e : Stop} {a : α} {p q : Pass} :
    ¬ Yields (throw e) p a q := by
  intro h
  cases h

@[simp] theorem yields_get {p q r : Pass} : Yields get p r q ↔ p = r ∧ p = q := by
  change (Except.ok p, p) = (Except.ok r, q) ↔ _
  simp

@[simp] theorem yields_modify {f : Pass → Pass} {p q : Pass} {a : Unit} :
    Yields (modify f) p a q ↔ f p = q := by
  change (Except.ok (), f p) = (Except.ok a, q) ↔ _
  simp

@[simp] theorem yields_report {ds : Diagnostics} {p q : Pass} {a : Unit} :
    Yields (report ds) p a q ↔ { p with diagnostics := p.diagnostics ++ ds } = q :=
  yields_modify

@[simp] theorem yields_noting {found : α × Diagnostics} {p q : Pass} {a : α} :
    Yields (noting found) p a q ↔
      found.1 = a ∧ { p with diagnostics := p.diagnostics ++ found.2 } = q := by
  simp [noting, and_comm]

@[simp] theorem yields_register {name : String} {s : Schema} {p q : Pass} {a : Unit} :
    Yields (register name s) p a q ↔
      { p with registry := (p.registry.register name s).2 } = q :=
  yields_modify

theorem yields_defining {name : String} {step : PassM α} {p q : Pass} {a : α} :
    Yields (defining name step) p a q ↔
      ∃ q', Yields step (startName name p) a q' ∧ finishName name q' = q := by
  rw [Yields, run_defining]
  constructor
  · intro h
    have hvalue := congrArg Prod.fst h
    have hstate := congrArg Prod.snd h
    exact ⟨(step.run.run (startName name p)).2, Prod.ext hvalue rfl, hstate⟩
  · rintro ⟨q', h, rfl⟩
    rw [Yields] at h
    rw [h]

/-- What asking for a name comes to: the table answers, or the pass stops. -/
theorem run_assignName (env : Environment) (request : NameRequest) (p : Pass) :
    (assignName env request).run.run p =
      match p.names.compute env.config env.types request with
      | none => (.error .endless, p)
      | some (.error e) =>
        (.error (.duplicateName e),
          { p with diagnostics := p.diagnostics ++ [duplicateSchemaName request.type.display e] })
      | some (.ok (name, names)) => (.ok name, { p with names := names }) := by
  have hget : (get : PassM Pass).run.run p = (.ok p, p) := rfl
  rw [assignName, run_bind, hget]
  cases hcompute : p.names.compute env.config env.types request with
  | none => simp only [hcompute]; rfl
  | some found => cases found <;> (simp only [hcompute]; rfl)

theorem yields_assignName {env : Environment} {request : NameRequest} {p q : Pass} {name : String} :
    Yields (assignName env request) p name q ↔
      ∃ names, p.names.compute env.config env.types request = some (.ok (name, names)) ∧
        { p with names := names } = q := by
  rw [Yields, run_assignName]
  constructor
  · intro h
    split at h
    · cases h
    · cases h
    · rename_i given names hcompute
      cases h
      exact ⟨names, hcompute, rfl⟩
  · rintro ⟨names, hcompute, rfl⟩
    simp only [hcompute]

end Pass

end Schemata
