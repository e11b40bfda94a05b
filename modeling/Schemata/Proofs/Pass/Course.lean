import Schemata.Proofs.Pass.Outcome
import Schemata.Proofs.Pass.Parallel
import Schemata.Proofs.Pass.Trail

/-!
# The course of a step

A step takes a pass from one state to another and may stop there.  What holds of a report and
of every call, and goes on to hold from one step to the next, holds of all that is made of
them: it has to be shown for definitions only, where names are assigned and schemas are
registered.
-/
namespace Schemata

open Pass

/-- A relation from earlier states to later ones, and to why a step stops there, that holds
across reports and from one step to the next. -/
structure Course (R : Pass → Option Stop → Pass → Prop) : Prop where
  refl (p : Pass) : R p none p
  report (p : Pass) (ds : Diagnostics) : R p none (p.withDiagnostics ds)
  trans {p q r : Pass} {o : Option Stop} : R p none q → R q o r → R p o r

variable {R : Pass → Option Stop → Pass → Prop}

/-- On a course anything may be noted. -/
theorem Course.trail (h : Course R) : Trail (fun _ => True) R :=
  ⟨fun _ => trivial, h.refl, fun p ds _ => h.report p ds, h.trans⟩

namespace Comparison

/-- Two runs of which nothing is asked but that they make the same calls. -/
def loose : Comparison := ⟨False⟩

theorem Alike.loose_refl (K : String → Prop) (s : Schema) : loose.Alike K s s :=
  .refl fun exact => False.elim exact

theorem AlikeResolved.loose_refl (K : String → Prop) (r : Resolved) : loose.AlikeResolved K r r :=
  ⟨rfl, .loose_refl K _⟩

end Comparison

theorem rel_refl {r : α → α → Prop} (h : ∀ a, r a a) (found : Option α) :
    Option.Rel r found found := by
  cases found with
  | none => exact .none
  | some a => exact .some (h a)

namespace Parallel

variable {c c' : Compiler} {calls : Call → Prop} {K : String → Prop} {α : Type}
  {m m' : PassM α} {post : (String → Prop) → α → α → Prop}

/-- What two runs have in common holds of the value of one, and of some other. -/
theorem post_of_yields (par : Parallel c c' .loose calls K m m' post) {p q : Pass} {a : α}
    (h : Yields m p a q) : ∃ K' a', (∀ name, K name → K' name) ∧ post K' a a' := by
  induction par generalizing p q with
  | pure h' =>
    obtain ⟨rfl, rfl⟩ := yields_pure.mp h
    exact ⟨_, _, fun _ => id, h'⟩
  | report => exact ⟨_, (), fun _ => id, trivial⟩
  | look _ ih => exact ih p p (fun exact => False.elim exact) h
  | @resolve K => exact ⟨K, a, fun _ => id, rel_refl (Comparison.AlikeResolved.loose_refl K) a⟩
  | @define K => exact ⟨K, a, fun _ => id, rel_refl (Comparison.Alike.loose_refl K) a⟩
  | bind _ _ ihm ihf =>
    obtain ⟨a, p', hm, hf⟩ := yields_bind.mp h
    obtain ⟨K', a', hsub, hmid⟩ := ihm hm
    obtain ⟨K'', b', hsub', hpost⟩ := ihf K' a a' hsub hmid hf
    exact ⟨K'', b', fun name hname => hsub' name (hsub name hname), hpost⟩

/-- A step that is made of calls takes the course that they take. -/
theorem takes (h : Course R) (par : Parallel c c' .loose calls K m m' post)
    (hc : ∀ call, calls call → call.Takes R c) : Takes R m := by
  induction par with
  | pure => exact h.refl
  | report ds => exact fun p => h.report p ds
  | look _ ih => exact fun p => ih p p (fun exact => False.elim exact) p
  | resolve mem => exact hc _ mem
  | define mem => exact hc _ mem
  | bind hm _ ihm ihf =>
    refine h.trail.bindYielded ihm fun p a q ha => ?_
    obtain ⟨K', a', hsub, hmid⟩ := hm.post_of_yields ha
    exact ihf K' a a' hsub hmid q

end Parallel

namespace Course

variable {env : Environment} {c : Compiler}

theorem occurrence (h : Course R) {element : Option Element} {t : TypeRef} {scope : Scope}
    (hc : ∀ call ∈ Call.ofOccurrence env element t scope, call.Takes R c) :
    Takes R (c.occurrence env element t scope) :=
  h.trail.occurrence hc fun _ => trivial

theorem build (h : Course R) {d : Decl} {t : TypeRef} {scope : Scope}
    (hc : ∀ call ∈ Call.ofDefinition env d (env.types.bindings t) scope, call.Takes R c) :
    Takes R (c.build env d t scope) :=
  h.trail.build hc

theorem bindElement (h : Course R) {e : Element} {t : TypeRef} {derived : Schema}
    {nullable : Bool} (hc : ∀ call ∈ Call.named e.directives.typeNames, call.Takes R c) :
    Takes R (c.bind env e t derived nullable) :=
  h.trail.bindElement hc

theorem request (h : Course R) {r : Request} (hc : ∀ call ∈ Call.ofRequest r, call.Takes R c) :
    Takes R (c.request env r) :=
  h.trail.request hc

/-- Compilers of every depth take a course on the calls of a set, if definitions take it and
opened occurrences stay within the set. -/
theorem ofDepth (h : Course R) (calls : Call → Prop) (endless : ∀ p, R p (some .endless) p)
    (below : ∀ {element t scope}, calls (.resolve element t scope) →
      ∀ call ∈ Call.ofOccurrence env element t scope, calls call)
    (define : ∀ {depth element t scope p o q},
      (∀ call, calls call → call.Takes R (Compiler.ofDepth env depth)) →
        calls (.define element t scope) →
          (Compiler.ofDepth env depth).Ends env element t scope p o q → R p o q)
    (depth : Nat) {call : Call} (hcall : calls call) :
    call.Takes R (Compiler.ofDepth env depth) :=
  h.trail.ofDepth calls endless below (fun _ _ => trivial) define depth hcall

end Course

end Schemata
