import Schemata.Proofs.Pass.Integrity

/-!
# Each name is begun once

A request leaves in place whatever was registered, assigned and reported before it, and no
definition in progress, also if it is stopped.  A name is only begun while it is neither
registered nor in progress: a pass that did anything else at the beginning of a known name would
take the same course.
-/
namespace Schemata

open Pass

namespace Pass

/-- A definition that begins in a way of its own. -/
def definingFrom (start : String → Pass → Pass) (name : String) (step : PassM α) : PassM α :=
  ExceptT.mk do
    modify (start name)
    let result ← step.run
    modify (finishName name)
    pure result

theorem run_definingFrom (start : String → Pass → Pass) (name : String) (step : PassM α)
    (p : Pass) : (definingFrom start name step).run.run p =
      ((step.run.run (start name p)).1, finishName name (step.run.run (start name p)).2) := rfl

end Pass

namespace Compiler

/-- The reference to a declared type, where definitions begin in a way of their own. -/
def definedFrom (start : String → Pass → Pass) (c : Compiler) (env : Environment)
    (element : Option Element) (t : TypeRef) (scope : Scope) : PassM (Option Schema) := do
  match env.types.declOf? t with
  | none =>
    let name := t.name?.getD ""
    Pass.report [.unknownType t.display name (env.types.suggest name)]
    pure none
  | some d =>
    let name ← Pass.assignName env (d.nameRequest element t scope)
    if (← get).isKnown name then pure (some (.reference name))
    else
      let s ← Pass.definingFrom start name (c.build env d t scope)
      let s := d.documented s
      Pass.register name s
      pure (some (d.definedReference name s))

/-- A compiler of bounded depth whose definitions begin in a way of their own. -/
def ofDepthFrom (start : String → Pass → Pass) (env : Environment) : Nat → Compiler
  | 0 => endless
  | depth + 1 =>
    ⟨fun element t scope => (ofDepthFrom start env depth).occurrence env element t scope,
      fun element t scope => (ofDepthFrom start env depth).definedFrom start env element t scope⟩

variable {start : String → Pass → Pass}

/-- A definition only begins while its name is not known. -/
theorem definedFrom_eq (agrees : ∀ name p, p.isKnown name = false → start name p = startName name p)
    (c : Compiler) (env : Environment) (element : Option Element) (t : TypeRef) (scope : Scope) :
    c.definedFrom start env element t scope = c.defined env element t scope := by
  unfold definedFrom defined
  cases env.types.declOf? t with
  | none => rfl
  | some d =>
    funext p
    change StateT.run (ExceptT.run _) p = StateT.run (ExceptT.run _) p
    dsimp only
    rw [run_bind, run_bind]
    cases (assignName env (d.nameRequest element t scope)).run.run p with
    | mk result q =>
      cases result with
      | error e => rfl
      | ok name =>
        have looked : (get : PassM Pass).run.run q = (.ok q, q) := rfl
        dsimp only
        rw [run_bind, run_bind, looked]
        dsimp only
        split
        · rfl
        · rename_i new
          have begun := agrees name q (Bool.eq_false_iff.mpr new)
          rw [run_bind, run_bind, run_defining, run_definingFrom, begun]

theorem ofDepthFrom_eq (agrees : ∀ name p, p.isKnown name = false → start name p = startName name p)
    (env : Environment) (depth : Nat) : ofDepthFrom start env depth = ofDepth env depth := by
  induction depth with
  | zero => rfl
  | succ depth ih =>
    rw [ofDepthFrom, ih, ofDepth]
    simp only [definedFrom_eq agrees]

end Compiler

namespace Pass

/-- The answer to a request and the pass after it, where definitions begin in a way of their
own. -/
def resolveFrom (start : String → Pass → Pass) (p : Pass) (env : Environment) (r : Request) :
    Except Stop (Option Schema) × Pass :=
  ((Compiler.ofDepthFrom start env (Budget.depth env r.element r.type)).request env r).run.run p

/-- A request adds to a pass and takes nothing from it, whether it is answered or stopped.  No
definition is in progress afterwards, and none is begun under a name that is registered or in
progress: whatever would happen then, the request comes to the same. -/
theorem resolve_framed (env : Environment) (rs : List Request) (r : Request) :
    (after env rs).registry.schemas <+: ((after env rs).resolve env r).2.registry.schemas ∧
    (∀ key name, (after env rs).names.assigned.get? key = some name →
      ((after env rs).resolve env r).2.names.assigned.get? key = some name) ∧
    (after env rs).diagnostics <+: ((after env rs).resolve env r).2.diagnostics ∧
    ((after env rs).resolve env r).2.registry.inProgress = [] ∧
    ∀ start : String → Pass → Pass,
      (∀ name p, p.isKnown name = false → start name p = startName name p) →
        (after env rs).resolveFrom start env r = (after env rs).resolve env r := by
  have grows : Grows (after env rs) ((after env rs).resolve env r).2 :=
    (frame_grows env).resolve (after env rs) r
  refine ⟨grows.schemas, fun key name => grows.assigned, grows.diagnostics, ?_, ?_⟩
  · rw [grows.inProgress, idle_after]
  · intro start agrees
    rw [resolveFrom, Compiler.ofDepthFrom_eq agrees]
    rfl

/-- Begins a definition, and raises an alarm if its name is known. -/
def alarming (name : String) (p : Pass) : Pass :=
  if p.isKnown name then p.withDiagnostics [⟨name, .duplicateSchemaName, "begun twice", []⟩]
  else startName name p

/-- Two records that hold each other are begun without an alarm. -/
theorem resolve_framed_partners :
    (∀ name p, p.isKnown name = false → alarming name p = startName name p) ∧
    ((after partners []).resolveFrom alarming partners ownerRequest).2.registry.names =
      ["Pet", "Owner"] ∧
    ((after partners []).resolveFrom alarming partners ownerRequest).2.diagnostics = [] := by
  have agrees (name : String) (p : Pass) (new : p.isKnown name = false) :
      alarming name p = startName name p := by
    simp [alarming, new]
  refine ⟨agrees, ?_⟩
  rw [(resolve_framed partners [] ownerRequest).2.2.2.2 alarming agrees]
  decide +kernel

end Pass

end Schemata
