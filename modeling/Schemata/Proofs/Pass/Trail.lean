import Schemata.Proofs.Pass.Outcome
import Schemata.Proofs.Pass.Pairing

/-!
# The trail of a step

A step takes a pass from one state to another and may stop there.  What holds of all that may be
noted and of every call, and goes on to hold from one step to the next, holds of all that is made
of them.  Between calls a step notes advice only, but for types that cannot be represented.
-/
namespace Schemata

namespace Pass

/-- Why a step stops, if it does. -/
def stop? (m : PassM α) (p : Pass) : Option Stop :=
  match (m.run.run p).1 with
  | .ok _ => none
  | .error e => some e

theorem Yields.stop? {m : PassM α} {p q : Pass} {a : α} (h : Yields m p a q) :
    stop? m p = none := by
  rw [Pass.stop?, h]

theorem exists_of_stop? {m : PassM α} {p : Pass} (h : stop? m p = none) :
    ∃ a, Yields m p a (stateAfter m p) := by
  unfold Pass.stop? at h
  split at h
  · rename_i a ha
    exact ⟨a, Prod.ext ha rfl⟩
  · cases h

/-- Whether a step yields what passes a test. -/
def passes (m : PassM α) (p : Pass) (test : α → Bool) : Bool :=
  (m.run.run p).1.toOption.any test

theorem exists_of_passes {m : PassM α} {p : Pass} {test : α → Bool}
    (h : passes m p test = true) : ∃ a, Yields m p a (stateAfter m p) ∧ test a = true := by
  obtain ⟨a, found, holds⟩ := (Option.any_eq_true _ _).mp h
  cases result : (m.run.run p).1 with
  | error e =>
    rw [result] at found
    cases found
  | ok b =>
    rw [result] at found
    cases found
    exact ⟨a, Prod.ext result rfl, holds⟩

theorem run_of_stop? {m : PassM α} {p : Pass} {e : Stop} (h : stop? m p = some e) :
    m.run.run p = (.error e, stateAfter m p) := by
  unfold Pass.stop? at h
  split at h
  · cases h
  · rename_i e' he
    cases h
    exact Prod.ext he rfl

end Pass

open Pass Diagnostics

/-- A step leads along such a relation from whatever state it starts. -/
def Takes (R : Pass → Option Stop → Pass → Prop) (m : PassM α) : Prop :=
  ∀ p, R p (stop? m p) (stateAfter m p)

/-- A compiler leads along such a relation on a call. -/
def Call.Takes (R : Pass → Option Stop → Pass → Prop) (c : Compiler) : Call → Prop
  | .resolve element t scope => Schemata.Takes R (c.resolve element t scope)
  | .define element t scope => Schemata.Takes R (c.define element t scope)

variable {R : Pass → Option Stop → Pass → Prop}

theorem Takes.yields {m : PassM α} (h : Takes R m) {p q : Pass} {a : α} (hm : Yields m p a q) :
    R p none q := by
  have course := h p
  rwa [hm.stop?, hm.stateAfter] at course

theorem Takes.stops {m : PassM α} (h : Takes R m) {p q : Pass} {e : Stop}
    (hm : m.run.run p = (.error e, q)) : R p (some e) q := by
  have course := h p
  rwa [stop?, stateAfter, hm] at course

/-- A relation from earlier states to later ones, and to why a step stops there, that holds
across whatever may be noted and from one step to the next. -/
structure Trail (noted : Diagnostic → Prop) (R : Pass → Option Stop → Pass → Prop) : Prop where
  advised {d : Diagnostic} : d.IsAdvice → noted d
  refl (p : Pass) : R p none p
  note (p : Pass) {ds : Diagnostics} : (∀ d ∈ ds, noted d) → R p none (p.withDiagnostics ds)
  trans {p q r : Pass} {o : Option Stop} : R p none q → R q o r → R p o r

namespace Trail

variable {noted : Diagnostic → Prop} (h : Trail noted R)

include h

/-- A step is followed by one that starts where the first yields a value. -/
theorem bindYielded {m : PassM α} {f : α → PassM β} (hm : Takes R m)
    (hf : ∀ p a q, Yields m p a q → R q (stop? (f a) q) (stateAfter (f a) q)) :
    Takes R (m >>= f) := by
  intro p
  have first := hm p
  rw [stop?, stateAfter, run_bind]
  cases ho : stop? m p with
  | none =>
    obtain ⟨a, ha⟩ := exists_of_stop? ho
    rw [ho] at first
    rw [show m.run.run p = (.ok a, stateAfter m p) from ha]
    exact h.trans first (hf p a _ ha)
  | some e =>
    rw [ho] at first
    rw [run_of_stop? ho]
    exact first

theorem bind {m : PassM α} {f : α → PassM β} (hm : Takes R m) (hf : ∀ a, Takes R (f a)) :
    Takes R (m >>= f) :=
  h.bindYielded hm fun _ a q _ => hf a q

/-- What is said of one run is said of it beside itself. -/
theorem pairing : Pairing (fun d _ => noted d) Eq fun _ m _ => Takes R m where
  advised := h.advised
  detached := rfl
  view same := same ▸ rfl
  pure _ := h.refl
  report {ds ds'} alike p := by
    refine h.note p fun d hd => ?_
    obtain ⟨i, hi, rfl⟩ := List.mem_iff_getElem.mp hd
    exact alike.get hi (alike.length_eq ▸ hi)
  look hf := h.bind (m := MonadState.get) h.refl fun p => hf p p rfl
  bind hm hf := h.bind hm hf

omit h in
theorem pairs {c : Compiler} {call : Call} (hc : call.Takes R c) :
    call.Pairs Eq (fun _ m _ => Takes R m) c c := by
  cases call <;> exact fun _ _ => hc

variable {c : Compiler} {env : Environment} {element : Option Element} {t : TypeRef}
  {scope : Scope} {s : Schema} {d : Directive} {owner : Decl}

theorem overlay (hc : ∀ call ∈ Call.named d.typeNames, call.Takes R c) :
    Takes R (c.overlay env s d element t) :=
  h.pairing.overlay (.refl env) fun call hcall => pairs (hc call hcall)

theorem bindElement {e : Element} {derived : Schema} {nullable : Bool}
    (hc : ∀ call ∈ Call.named e.directives.typeNames, call.Takes R c) :
    Takes R (c.bind env e t derived nullable) :=
  h.pairing.bindElement (.refl env) fun call hcall => pairs (hc call hcall)

theorem occurrence (hc : ∀ call ∈ Call.ofOccurrence env element t scope, call.Takes R c)
    (missing : env.types.isRepresented (openOccurrence env element t).1.type = false →
      noted (.undeclared env.types (subjectOf element t) (openOccurrence env element t).1.type)) :
    Takes R (c.occurrence env element t scope) :=
  h.pairing.occurrence (.refl env) (fun call hcall => pairs (hc call hcall)) rfl
    (List.forall₂_same.mpr fun d hd => h.advised (advice_openOccurrence env element t d hd))
    missing fun _ => rfl

theorem request {r : Request} (hc : ∀ call ∈ Call.ofRequest r, call.Takes R c) :
    Takes R (c.request env r) :=
  h.pairing.request (.refl env) rfl rfl rfl fun call hcall => pairs (hc call hcall)

theorem addMember {parent : Schema} {m : Member} {bindings : Bindings}
    (hc : ∀ call ∈ Call.ofMember env owner bindings scope m, call.Takes R c) :
    Takes R (c.addMember env owner bindings scope parent m) :=
  h.pairing.addMember (.refl env) (fun call hcall => pairs (hc call hcall)) rfl

theorem build
    (hc : ∀ call ∈ Call.ofDefinition env owner (env.types.bindings t) scope, call.Takes R c) :
    Takes R (c.build env owner t scope) :=
  h.pairing.build (.refl env) (fun call hcall => pairs (hc call hcall)) rfl

end Trail

namespace Compiler

variable {c : Compiler} {env : Environment} {element : Option Element} {t : TypeRef}
  {scope : Scope}

/-- The ways in which a definition ends: it yields an answer, or is given no name, or stops
while its schema is built. -/
inductive Ends (c : Compiler) (env : Environment) (element : Option Element) (t : TypeRef)
    (scope : Scope) (p : Pass) : Option Stop → Pass → Prop where
  | yields {found : Option Schema} {q : Pass} (h : c.Defines env element t scope p found q) :
      Ends c env element t scope p none q
  | nameless {d : Decl} (declared : env.types.declOf? t = some d)
      (unnamed : p.names.compute env.config env.types (d.nameRequest element t scope) = none) :
      Ends c env element t scope p (some .endless) p
  | refused {d : Decl} {e : DuplicateName} (declared : env.types.declOf? t = some d)
      (clash : p.names.compute env.config env.types (d.nameRequest element t scope) =
        some (.error e)) :
      Ends c env element t scope p (some (.duplicateName e))
        (p.withDiagnostics [duplicateSchemaName t.display e])
  | stopped {d : Decl} {name : String} {names : NameTable} {e : Stop} {q : Pass}
      (declared : env.types.declOf? t = some d)
      (named : p.names.compute env.config env.types (d.nameRequest element t scope) =
        some (.ok (name, names)))
      (new : p.isKnown name = false)
      (stopped : (c.build env d t scope).run.run (startName name (p.withNames names)) =
        (.error e, q)) :
      Ends c env element t scope p (some e) (finishName name q)

theorem ends_defined (c : Compiler) (env : Environment) (element : Option Element) (t : TypeRef)
    (scope : Scope) (p : Pass) :
    c.Ends env element t scope p (stop? (c.defined env element t scope) p)
      (stateAfter (c.defined env element t scope) p) := by
  cases ho : stop? (c.defined env element t scope) p with
  | none =>
    obtain ⟨found, h⟩ := exists_of_stop? ho
    exact .yields (defines_of_yields h)
  | some e =>
    have run := run_of_stop? ho
    generalize stateAfter (c.defined env element t scope) p = q at run
    unfold Compiler.defined at run
    split at run
    · cases run
    · rename_i d declared
      rw [run_bind, run_assignName] at run
      cases hcompute : p.names.compute env.config env.types (d.nameRequest element t scope) with
      | none =>
        simp only [hcompute] at run
        cases run
        exact .nameless declared hcompute
      | some result =>
        cases result with
        | error e =>
          simp only [hcompute] at run
          cases run
          exact .refused declared hcompute
        | ok found =>
          obtain ⟨name, names⟩ := found
          simp only [hcompute] at run
          have hget : (get : PassM Pass).run.run { p with names := names } =
            (.ok (p.withNames names), p.withNames names) := rfl
          rw [run_bind, hget] at run
          dsimp only at run
          split at run
          · cases run
          · rename_i new
            rw [run_bind, run_defining] at run
            cases hbuild : (c.build env d t scope).run.run
                (startName name (p.withNames names)) with
            | mk result q' =>
              rw [hbuild] at run
              cases result with
              | ok s => cases run
              | error e' =>
                cases run
                exact .stopped declared hcompute (Bool.eq_false_iff.mpr new) hbuild

end Compiler

namespace Trail

variable {noted : Diagnostic → Prop} (h : Trail noted R)

include h

/-- Compilers of every depth lead along a trail on the calls of a set, if definitions do, opened
occurrences stay within the set, and it may be noted which of them cannot be represented. -/
theorem ofDepth {env : Environment} (calls : Call → Prop) (endless : ∀ p, R p (some .endless) p)
    (below : ∀ {element t scope}, calls (.resolve element t scope) →
      ∀ call ∈ Call.ofOccurrence env element t scope, calls call)
    (missing : ∀ {element t scope}, calls (.resolve element t scope) →
      env.types.isRepresented (openOccurrence env element t).1.type = false →
        noted (.undeclared env.types (subjectOf element t) (openOccurrence env element t).1.type))
    (define : ∀ {depth element t scope p o q},
      (∀ call, calls call → call.Takes R (Compiler.ofDepth env depth)) →
        calls (.define element t scope) →
          (Compiler.ofDepth env depth).Ends env element t scope p o q → R p o q)
    (depth : Nat) {call : Call} (hcall : calls call) :
    call.Takes R (Compiler.ofDepth env depth) := by
  induction depth generalizing call with
  | zero => cases call <;> exact endless
  | succ depth ih =>
    cases call with
    | resolve element t scope =>
      exact h.occurrence (fun call hmem => ih (below hcall call hmem)) (missing hcall)
    | define element t scope =>
      exact fun p => define (fun call => ih) hcall (Compiler.ends_defined _ env element t scope p)

end Trail

end Schemata
