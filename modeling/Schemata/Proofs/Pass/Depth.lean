import Schemata.Proofs.Pass.Pairing

/-!
# Depth

A compiler gives up on what is nested deeper than it goes.  Whatever it does not give up on, a
deeper one does in the same way, so that two depths that suffice lead to the same result.
-/
namespace Schemata

open Pass

namespace Pass

/-- What the first step does not give up on, the second does in the same way. -/
def Extends (α : Type) (m m' : PassM α) : Prop :=
  ∀ p, (m.run.run p).1 ≠ .error .endless → m'.run.run p = m.run.run p

namespace Extends

variable {α β : Type} {m m' : PassM α}

theorem refl (m : PassM α) : Extends α m m := fun _ _ => rfl

theorem bind {f f' : α → PassM β} (hm : Extends α m m') (hf : ∀ a, Extends β (f a) (f' a)) :
    Extends β (m >>= f) (m' >>= f') := by
  intro p ends
  have first := hm p
  rw [run_bind] at ends
  rw [run_bind, run_bind]
  generalize m.run.run p = out at first ends
  obtain ⟨result, q⟩ := out
  cases result with
  | ok a =>
    -- an answer is no giving up, so the second step has it as well
    rw [first (fun same => by cases same)]
    exact hf a q ends
  | error e => rw [first fun same => ends (by cases same; rfl)]

theorem defining (hm : Extends α m m') (name : String) :
    Extends α (Pass.defining name m) (Pass.defining name m') := by
  intro p ends
  rw [run_defining] at ends
  rw [run_defining, run_defining, hm (startName name p) ends]

/-- Whatever is made of steps in pairs goes on in the same way. -/
theorem pairing : Pairing Eq Eq Extends where
  advised _ := rfl
  detached := rfl
  view same := same ▸ rfl
  pure a := refl (Pure.pure a)
  report same := by
    rw [List.forall₂_eq_eq_eq] at same
    exact same ▸ refl _
  look hf := fun p => hf p p rfl p
  bind := bind

end Extends

end Pass

namespace Compiler

variable {env : Environment}

/-- A definition goes on in the same way, if all that it leads to does. -/
theorem extends_defined {c c' : Compiler} (element : Option Element) (t : TypeRef) (scope : Scope)
    (hc : ∀ call : Call, call.Pairs Eq Extends c c') :
    Extends _ (c.defined env element t scope) (c'.defined env element t scope) := by
  unfold Compiler.defined
  cases env.types.declOf? t with
  | none => exact .refl _
  | some d =>
    refine .bind (.refl _) fun name => Extends.pairing.look fun p p' same => ?_
    rw [isKnown, isKnown, same]
    split
    · exact .refl _
    · have built : Extends _ (c.build env d t scope) (c'.build env d t scope) :=
        Extends.pairing.build (.refl env) (fun call _ => hc call) rfl
      exact .bind (built.defining name) fun _ => .refl _

/-- A compiler that goes deeper extends one that does not. -/
theorem extends_ofDepth (env : Environment) (depth more : Nat) (call : Call) :
    call.Pairs Eq Extends (ofDepth env depth) (ofDepth env (depth + more)) := by
  induction depth generalizing call with
  | zero => cases call <;> exact fun _ _ _ ends => absurd rfl ends
  | succ depth ih =>
    rw [Nat.succ_add]
    cases call with
    | resolve element t scope =>
      rintro _ rfl
      exact Extends.pairing.occurrence (.refl env) (fun call _ => ih call) rfl
        (List.forall₂_same.mpr fun _ _ => rfl) (fun _ => rfl) fun _ => rfl
    | define element t scope =>
      rintro _ rfl
      exact extends_defined element t scope fun call => ih call

/-- Two depths that suffice lead to the same result in the same state. -/
theorem resolve_eq_of_ends {depth depth' : Nat} {element : Option Element} {t : TypeRef}
    {scope : Scope} {p : Pass}
    (ends : (((ofDepth env depth).resolve element t scope).run.run p).1 ≠ .error .endless)
    (ends' : (((ofDepth env depth').resolve element t scope).run.run p).1 ≠ .error .endless) :
    ((ofDepth env depth').resolve element t scope).run.run p =
      ((ofDepth env depth).resolve element t scope).run.run p := by
  have deeper := extends_ofDepth env depth depth' (.resolve element t scope) scope rfl p ends
  have deeper' := extends_ofDepth env depth' depth (.resolve element t scope) scope rfl p ends'
  rw [← deeper, ← deeper', Nat.add_comm]

end Compiler

end Schemata
