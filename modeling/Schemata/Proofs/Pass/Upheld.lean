import Schemata.Proofs.Pass.Contract

/-!
# Conditions on all schemas

A condition is upheld in a pass if what occurrences come to satisfies it, what the directives of
the elements of requests are bound to, and what is built for declarations while all that is
registered satisfies it.  Then all schemas that are ever registered and all answers satisfy it.
-/
namespace Schemata

open Pass

/-- All registered schemas satisfy a condition. -/
def Pass.Registers (p : Pass) (G : Schema → Prop) : Prop := ∀ entry ∈ p.registry.schemas, G entry.2

theorem Pass.Registers.earlier {G : Schema → Prop} {p q : Pass} (h : q.Registers G)
    (grows : Grows p q) : p.Registers G :=
  fun entry hentry => h entry (grows.schemas.subset hentry)

namespace Environment

structure Upholds (env : Environment) (rs : List Request) (G : Schema → Prop) : Prop where
  plain {depth : Nat} {element : Option Element} {type : TypeRef} {scope : Scope} {p q : Pass}
    {found : Resolved} :
    Yields ((Compiler.ofDepth env depth).resolve element type scope) p (some found) q →
      G found.outer
  bound {r : Request} {e : Element} {depth : Nat} {p p' q : Pass} {found : Resolved}
    {nullable : Bool} {s : Schema} : r ∈ rs → r.element = some e →
    Yields ((Compiler.ofDepth env depth).resolve (some e) r.type r.scope) p (some found) p' →
      Yields ((Compiler.ofDepth env depth).bind env e r.type found.schema nullable) p' s q → G s
  built {depth : Nat} {d : Decl} {type : TypeRef} {scope : Scope} {p q : Pass} {s : Schema}
    (name : String) : env.types.declOf? type = some d → q.Registers G →
    Yields ((Compiler.ofDepth env depth).build env d type scope) p s q →
      G { d.documented s with name := some name }

namespace Upholds

variable {env : Environment} {rs : List Request} {G : Schema → Prop} {p : Pass}

/-- What is registered satisfies the condition after a step if it did so before. -/
def Keeps (G : Schema → Prop) (p : Pass) (_ : Option Stop) (q : Pass) : Prop :=
  p.Registers G → q.Registers G

theorem course_keeps (G : Schema → Prop) : Course (Keeps G) where
  refl _ := id
  report _ _ := id
  trans first second registers := second (first registers)

/-- A definition registers what was built while everything registered satisfied the condition. -/
theorem keeps_ends (h : env.Upholds rs G) {depth : Nat}
    (hc : ∀ call : Call, call.Takes (Keeps G) (Compiler.ofDepth env depth))
    {element : Option Element} {type : TypeRef} {scope : Scope} {o : Option Stop} {q : Pass}
    (ends : (Compiler.ofDepth env depth).Ends env element type scope p o q) : Keeps G p o q := by
  intro registers
  have begun (name : String) (names : NameTable) :
      (startName name (p.withNames names)).Registers G := by
    rw [Registers, schemas_startName name _]
    exact registers
  cases ends with
  | yields answered =>
    cases answered with
    | undeclared => exact registers
    | known => exact registers
    | @built d name names s q declared _ _ built =>
      have kept := ((course_keeps G).build fun call _ => hc call).yields built (begun name names)
      intro entry hentry
      rcases mem_schemas_withSchema hentry with old | rfl
      · exact kept entry old
      · exact h.built name declared kept built
  | nameless => exact registers
  | refused => exact registers
  | @stopped d name names _ _ _ _ _ stopped =>
    have kept := ((course_keeps G).build fun call _ => hc call).stops stopped
    exact kept (begun name names)

theorem keeps_ofDepth (h : env.Upholds rs G) (depth : Nat) (call : Call) :
    call.Takes (Keeps G) (Compiler.ofDepth env depth) :=
  (course_keeps G).ofDepth (fun _ => True) (course_keeps G).refl (fun _ _ _ => trivial)
    (fun hc _ => h.keeps_ends fun call => hc call trivial) depth trivial

/-- A request keeps the condition of what is registered, and its answer satisfies it. -/
theorem resolve (h : env.Upholds rs G) {r : Request} (hr : r ∈ rs) (registers : p.Registers G) :
    (p.resolve env r).2.Registers G ∧
      ∀ s, (p.resolve env r).1 = .ok (some s) → G s := by
  constructor
  · have kept : Keeps G p _ (p.resolve env r).2 :=
      (course_keeps G).request (fun call _ => h.keeps_ofDepth _ call) p
    exact kept registers
  · intro s answered
    have yields : Yields ((Compiler.serving env r.element r.type).request env r) p (some s)
        (p.resolve env r).2 := Prod.ext answered rfl
    obtain ⟨depth, serving⟩ : ∃ depth,
        Compiler.serving env r.element r.type = Compiler.ofDepth env depth := ⟨_, rfl⟩
    rw [serving] at yields
    cases Compiler.answers_of_yields yields with
    | plain resolved => exact h.plain resolved
    | bound resolved element bound =>
      rw [element] at resolved
      exact h.bound hr element resolved bound

/-- So do all requests of a pass, one after the other. -/
theorem serve (h : env.Upholds rs G) {requests : List Request} (listed : requests ⊆ rs)
    (registers : p.Registers G) :
    (p.serve env requests).2.Registers G ∧
      ∀ s, .ok (some s) ∈ (p.serve env requests).1 → G s := by
  induction requests generalizing p with
  | nil => exact ⟨registers, fun s answered => by cases answered⟩
  | cons r rest ih =>
    obtain ⟨next, first⟩ := h.resolve (listed List.mem_cons_self) registers
    obtain ⟨last, others⟩ := ih (fun r hr => listed (List.mem_cons_of_mem _ hr)) next
    refine ⟨last, fun s answered => ?_⟩
    rcases List.mem_cons.mp answered with here | later
    · exact first s here.symm
    · exact others s later

end Upholds

end Environment

end Schemata
