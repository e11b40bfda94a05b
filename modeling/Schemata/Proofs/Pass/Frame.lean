import Schemata.Proofs.Pass.Course

/-!
# What every step of a pass respects

A relation between an earlier and a later state is respected by all of a pass once it is
respected by its four changes of state: a report, an assigned name, and a definition that is
registered or abandoned.  The main statement carries this from compilers to requests.
-/
namespace Schemata

open Pass

/-- A relation from earlier to later states that holds across each change of state. -/
structure Frame (env : Environment) (R : Pass → Pass → Prop) : Prop where
  refl (p : Pass) : R p p
  trans {p q r : Pass} : R p q → R q r → R p r
  report (p : Pass) (ds : Diagnostics) : R p { p with diagnostics := p.diagnostics ++ ds }
  assign {p : Pass} {request : NameRequest} {name : String} {names : NameTable} :
    p.names.compute env.config env.types request = some (.ok (name, names)) →
      R p { p with names := names }
  /-- A definition that stops leaves only its name behind, which is no longer in progress. -/
  abandon {p q : Pass} {name : String} : p.isKnown name = false →
    R (Pass.startName name p) q → R p (Pass.finishName name q)
  register {p q : Pass} {name : String} (s : Schema) : p.isKnown name = false →
    R (Pass.startName name p) q →
      R p { Pass.finishName name q with
        registry := ((Pass.finishName name q).registry.register name s).2 }

/-- A step respects a relation from whatever state it starts. -/
abbrev Respects (R : Pass → Pass → Prop) (m : PassM α) : Prop := Takes (fun p _ q => R p q) m

/-- A compiler all of whose steps respect a relation. -/
def Compiler.Respects (R : Pass → Pass → Prop) (c : Compiler) : Prop :=
  ∀ call : Call, call.Takes (fun p _ q => R p q) c

namespace Frame

variable {env : Environment} {R : Pass → Pass → Prop} {c : Compiler}

theorem course (h : Frame env R) : Course fun p _ q => R p q :=
  ⟨h.refl, h.report, h.trans⟩

theorem build (h : Frame env R) (hc : c.Respects R) (d : Decl) (t : TypeRef) (scope : Scope) :
    Respects R (c.build env d t scope) :=
  h.course.build fun call _ => hc call

theorem bindElement (h : Frame env R) (hc : c.Respects R) (e : Element) (t : TypeRef)
    (derived : Schema) (nullable : Bool) : Respects R (c.bind env e t derived nullable) :=
  h.course.bindElement fun call _ => hc call

/-- A definition assigns a name, and the definition of a new name is registered or abandoned. -/
theorem ends (h : Frame env R) (hc : c.Respects R) {element : Option Element} {t : TypeRef}
    {scope : Scope} {p q : Pass} {o : Option Stop} (ends : c.Ends env element t scope p o q) :
    R p q := by
  cases ends with
  | yields answered =>
    cases answered with
    | undeclared => exact h.report p _
    | known _ named => exact h.assign named
    | built _ named new built =>
      have body := (h.build hc _ _ _).yields built
      exact h.trans (h.assign named) (h.register _ new body)
  | nameless => exact h.refl p
  | refused => exact h.report p _
  | stopped _ named new stopped =>
    have body := (h.build hc _ _ _).stops stopped
    exact h.trans (h.assign named) (h.abandon new body)

/-- A compiler of any depth respects what the changes of state respect. -/
theorem ofDepth (h : Frame env R) (depth : Nat) : (Compiler.ofDepth env depth).Respects R :=
  fun _ => h.course.ofDepth (fun _ => True) h.refl (fun _ _ _ => trivial)
    (fun hc _ => h.ends fun call => hc call trivial) depth trivial

/-- So does a request, whether it is answered or stopped. -/
theorem resolve (h : Frame env R) (p : Pass) (r : Request) : R p (p.resolve env r).2 :=
  h.course.request (fun call _ => h.ofDepth _ call) p

end Frame

end Schemata
