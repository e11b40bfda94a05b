import Schemata.Proofs.Pass.Written

/-!
# The parts of a composition

An occurrence comes to a reference or to a value or container that is written out, whose only
properties are the constants that a map has as its keys.  The types that a directive names can
add nothing else to the properties of the schema that it is laid over.
-/
namespace Schemata

open Pass

namespace Universe

/-- A constant of an enumeration, as it is written for the key of a map. -/
def IsConstant (u : Universe) (name : String) : Prop :=
  ∃ key d, u.kindOf key = .enum d ∧
    ∃ value ∈ (d.enumValues (some .string) none).1.getD [], name = Mangle.rendered value

/-- A schema that an occurrence may come to. -/
def WritesOut (u : Universe) (s : Schema) : Prop :=
  s.isRef = true ∨ s.allOf = [] ∧ ∀ property ∈ s.properties, u.IsConstant property.1

variable {u : Universe} {s t : Schema}

theorem WritesOut.leaf (parts : s.allOf = []) (properties : s.properties = []) : u.WritesOut s := by
  refine .inr ⟨parts, fun property h => ?_⟩
  rw [properties] at h
  cases h

theorem WritesOut.congr (h : u.WritesOut s) (ref : t.ref = s.ref)
    (properties : t.properties = s.properties) (parts : t.allOf = s.allOf) : u.WritesOut t := by
  rw [WritesOut, Schema.isRef, ref, properties, parts]
  exact h

/-- What is written out lists constants only. -/
theorem WritesOut.isConstant (h : u.WritesOut s) (inline : s.isRef = false)
    {property : String × Schema} (listed : s.Lists property) : u.IsConstant property.1 := by
  rcases h with reference | ⟨parts, constants⟩
  · cases inline.symm.trans reference
  · refine constants property (listed.of_references fun part hpart => ?_)
    rw [parts] at hpart
    cases hpart

theorem compositional_writesOut (u : Universe) :
    u.Compositional u.WritesOut fun _ => True where
  reference _ := .inl rfl
  labelled _ h := h.congr rfl rfl rfl
  value _ _ _ := .leaf rfl rfl
  argument _ := trivial
  used _ _ := trivial
  array _ := .leaf rfl rfl
  anyMap := .leaf rfl rfl
  map _ := .leaf rfl rfl
  constants {key d _} kind _ := by
    refine .inr ⟨rfl, fun property h => ?_⟩
    obtain ⟨value, hvalue, rfl⟩ := List.mem_map.mp (Assoc.mem_of_mem_ofList h)
    exact ⟨key, d, kind, value, hvalue, rfl⟩

end Universe

namespace Compiler

/-- A compiler that writes out values and containers and refers to definitions. -/
structure WritesOut (c : Compiler) (env : Environment) : Prop where
  resolve {element : Option Element} {t : TypeRef} {scope : Scope} {p q : Pass} {r : Resolved} :
    Yields (c.resolve element t scope) p (some r) q → env.types.WritesOut r.schema
  define {element : Option Element} {t : TypeRef} {scope : Scope} {p q : Pass} {s : Schema} :
    Yields (c.define element t scope) p (some s) q → s.isRef = true

variable {c : Compiler} {env : Environment} {element : Option Element} {t : TypeRef}
  {scope : Scope} {p q : Pass} {s s' : Schema} {d : Directive}

theorem Defines.isRef (h : c.Defines env element t scope p (some s) q) : s.isRef = true := by
  cases h with
  | known => rfl
  | @built d => cases kind : d.kind <;> simp only [Decl.definedReference, kind] <;> rfl

theorem writesOut_ofDepth (env : Environment) (depth : Nat) :
    (ofDepth env depth).WritesOut env where
  resolve := (gives_ofDepth env.types.compositional_writesOut depth).resolve
  define hm := by
    obtain ⟨_, -, defines⟩ := yields_define_ofDepth hm
    exact defines.isRef

/-- A directive adds constants to the properties of a schema, and only if it names parts. -/
theorem WritesOut.lists_of_overlay (h : c.WritesOut env)
    (hm : Yields (c.overlay env s d element t) p s' q) {property : String × Schema}
    (listed : s'.Lists property) :
    s.Lists property ∨ d.texts "allOf" ≠ [] ∧ env.types.IsConstant property.1 := by
  have gives : c.Gives env.types.WritesOut := ⟨h.resolve, fun hm => .inl (h.define hm)⟩
  have overlaid := gives.overlay env.types.compositional_writesOut hm
  cases listed with
  | own own => exact .inl (.own (overlaid.properties ▸ own))
  | part hpart inline inner =>
    rcases overlaid.allOf hpart with old | ⟨texts, writesOut⟩
    · exact .inl (.part old inline inner)
    · exact .inr ⟨texts, writesOut.isConstant inline inner⟩

end Compiler

end Schemata
