import Schemata.Proofs.Pass.Frame
import Schemata.Proofs.Naming.Assignment

/-!
# Passes only grow

A request appends schemas and diagnostics, keeps every assigned name, and leaves no
definition in progress that was not in progress before it.
-/
namespace Schemata

namespace Pass

/-- The answers to some requests, one after the other, and the pass after them. -/
def serve (env : Environment) :
    Pass → List Request → List (Except Stop (Option Schema)) × Pass
  | p, [] => ([], p)
  | p, r :: rest =>
    let (answer, q) := p.resolve env r
    let (answers, last) := serve env q rest
    (answer :: answers, last)

/-- Requests for some types under the same media types. -/
def requestsFor (mediaTypes : List String) (types : List TypeRef) : List Request :=
  types.map fun t => { type := t, scope := { mediaTypes := mediaTypes } }

/-- The answers of a fresh pass. -/
def answers (env : Environment) (rs : List Request) : List (Except Stop (Option Schema)) :=
  (serve env {} rs).1

/-- A fresh pass after some requests. -/
def after (env : Environment) (rs : List Request) : Pass := (serve env {} rs).2

/-- What a later state has in common with an earlier one. -/
structure Grows (p q : Pass) : Prop where
  schemas : p.registry.schemas <+: q.registry.schemas
  inProgress : q.registry.inProgress = p.registry.inProgress
  assigned {key : String × String} {name : String} :
    p.names.assigned.get? key = some name → q.names.assigned.get? key = some name
  diagnostics : p.diagnostics <+: q.diagnostics

theorem Grows.refl (p : Pass) : Grows p p :=
  ⟨List.prefix_refl _, rfl, id, List.prefix_refl _⟩

theorem Grows.report (p : Pass) (ds : Diagnostics) :
    Grows p { p with diagnostics := p.diagnostics ++ ds } :=
  ⟨List.prefix_refl _, rfl, id, List.prefix_append _ _⟩

theorem Grows.trans {p q r : Pass} (h : Grows p q) (h' : Grows q r) : Grows p r :=
  ⟨h.schemas.trans h'.schemas, h'.inProgress.trans h.inProgress,
    fun given => h'.assigned (h.assigned given), h.diagnostics.trans h'.diagnostics⟩

theorem isKnown_iff {p : Pass} {name : String} : p.isKnown name = true ↔
    name ∈ p.registry.names ∨ name ∈ p.registry.inProgress := by
  simp [isKnown, Registry.isInProgress, Registry.contains, Registry.names,
    Assoc.contains_iff_mem_keys]

theorem isKnown_of_mem_schemas {p : Pass} {entry : String × Schema}
    (h : entry ∈ p.registry.schemas) : p.isKnown entry.1 = true :=
  isKnown_iff.mpr (.inl (List.mem_map_of_mem h))

theorem isKnown_eq_false_iff {p : Pass} {name : String} : p.isKnown name = false ↔
    p.registry.contains name = false ∧ name ∉ p.registry.inProgress := by
  simp [isKnown, Registry.isInProgress]

@[simp] theorem schemas_startName (name : String) (p : Pass) :
    (startName name p).registry.schemas = p.registry.schemas := by
  simp only [startName, Registry.start]
  split <;> rfl

theorem inProgress_startName {p : Pass} {name : String} (h : p.isKnown name = false) :
    (startName name p).registry.inProgress = p.registry.inProgress ++ [name] := by
  have hnew := (isKnown_eq_false_iff.mp h).2
  simp [startName, Registry.start, Registry.isInProgress, hnew]

@[simp] theorem inProgress_register (r : Registry) (name : String) (s : Schema) :
    (r.register name s).2.inProgress = r.inProgress := by
  simp only [Registry.register]
  split <;> rfl

theorem schemas_prefix_register (r : Registry) (name : String) (s : Schema) :
    r.schemas <+: (r.register name s).2.schemas := by
  simp only [Registry.register]
  split
  · exact List.prefix_refl _
  · exact List.prefix_append _ _

/-- A name that was new is forgotten again when it is finished. -/
theorem inProgress_finishName {p q : Pass} {name : String} (unknown : p.isKnown name = false)
    (h : Grows (startName name p) q) :
    (finishName name q).registry.inProgress = p.registry.inProgress := by
  have hnew := (isKnown_eq_false_iff.mp unknown).2
  have hbody := h.inProgress
  rw [inProgress_startName unknown] at hbody
  change q.registry.inProgress.erase name = p.registry.inProgress
  rw [hbody, List.erase_append_right _ hnew]
  simp

theorem Grows.finished {p q : Pass} {name : String} (unknown : p.isKnown name = false)
    (h : Grows (startName name p) q) : Grows p (finishName name q) where
  schemas := by
    have hschemas := h.schemas
    rwa [schemas_startName] at hschemas
  inProgress := inProgress_finishName unknown h
  assigned := h.assigned
  diagnostics := h.diagnostics

/-- Everything a pass does makes it grow. -/
theorem frame_grows (env : Environment) : Frame env Grows where
  refl := Grows.refl
  trans := Grows.trans
  report := Grows.report
  assign {p request name names} hcompute := by
    obtain ⟨⟨candidate, origin⟩, found, h⟩ := Option.map_eq_some_iff.mp hcompute
    have step := NameTable.assigns_of_assign h
    exact ⟨List.prefix_refl _, rfl, step.keeps, List.prefix_refl _⟩
  abandon unknown h := h.finished unknown
  register {p q name} s unknown h := by
    have finished := h.finished unknown
    exact ⟨finished.schemas.trans (schemas_prefix_register _ name s),
      (inProgress_register _ name s).trans finished.inProgress, finished.assigned,
      finished.diagnostics⟩

theorem Grows.isKnown {p q : Pass} (h : Grows p q) {name : String}
    (known : p.isKnown name = true) : q.isKnown name = true := by
  simp only [Pass.isKnown, Bool.or_eq_true, Registry.contains, Registry.isInProgress] at known ⊢
  rw [h.inProgress]
  refine known.imp_left fun hmem => ?_
  rw [Assoc.contains_iff_mem_keys] at hmem ⊢
  exact (h.schemas.map Prod.fst).subset hmem

/-- A step that yields a value grows the pass. -/
theorem Yields.grows {m : PassM α} {p q : Pass} {a : α} (h : Yields m p a q)
    (hm : Respects Grows m) : Grows p q := by
  have hgrows := hm p
  rwa [h.stateAfter] at hgrows

theorem exists_of_isOk {answer : Except Stop (Option Schema)} (h : answer.isOk = true) :
    ∃ s, answer = .ok s := by
  cases answer with
  | ok s => exact ⟨s, rfl⟩
  | error e => cases h

/-- A request of a list was answered in the state that the ones before it left. -/
theorem answered_of_mem_zip {env : Environment} {rs : List Request} {p : Pass} {r : Request}
    {answer : Except Stop (Option Schema)} (h : (r, answer) ∈ rs.zip (serve env p rs).1) :
    ∃ qs rest, rs = qs ++ r :: rest ∧ ((serve env p qs).2.resolve env r).1 = answer := by
  induction rs generalizing p with
  | nil => cases h
  | cons first rs ih =>
    rcases List.mem_cons.mp h with here | later
    · obtain ⟨rfl, rfl⟩ := Prod.mk.inj here
      exact ⟨[], rs, rfl, rfl⟩
    · obtain ⟨qs, rest, rfl, hanswer⟩ := ih later
      exact ⟨first :: qs, rest, rfl, hanswer⟩

theorem serve_append (env : Environment) (p : Pass) (qs rs : List Request) :
    serve env p (qs ++ rs) =
      ((serve env p qs).1 ++ (serve env (serve env p qs).2 rs).1,
        (serve env (serve env p qs).2 rs).2) := by
  induction qs generalizing p with
  | nil => rfl
  | cons q qs ih => simp only [List.cons_append, serve, ih]

end Pass

/-- What a request respects, a sequence of requests respects. -/
theorem Frame.serve {env : Environment} {R : Pass → Pass → Prop} (h : Frame env R) (p : Pass)
    (rs : List Request) : R p (p.serve env rs).2 := by
  induction rs generalizing p with
  | nil => exact h.refl p
  | cons r rs ih => exact h.trans (h.resolve p r) (ih _)

/-- A trail along which definitions lead is followed by every sequence of requests. -/
theorem Trail.serve {env : Environment} {noted : Diagnostic → Prop} {R : Pass → Pass → Prop}
    (h : Trail noted fun p _ q => R p q) {calls : Call → Prop}
    (hc : ∀ depth call, calls call →
      call.Takes (fun p _ q => R p q) (Compiler.ofDepth env depth)) {p : Pass} {rs : List Request}
    (asked : ∀ r ∈ rs, ∀ call ∈ Call.ofRequest r, calls call) : R p (p.serve env rs).2 := by
  induction rs generalizing p with
  | nil => exact h.refl p
  | cons r rest ih =>
    have first : R p (p.resolve env r).2 :=
      h.request (fun call hcall => hc _ call (asked r List.mem_cons_self call hcall)) p
    exact h.trans (o := none) first (ih fun r hr => asked r (List.mem_cons_of_mem _ hr))

/-- A course that definitions take is taken by requests that are all answered. -/
theorem Course.serve {env : Environment} {R : Pass → Option Stop → Pass → Prop} (h : Course R)
    {calls : Call → Prop}
    (hc : ∀ depth call, calls call → call.Takes R (Compiler.ofDepth env depth)) {p : Pass}
    {rs : List Request} (asked : ∀ r ∈ rs, ∀ call ∈ Call.ofRequest r, calls call)
    (answered : ∀ a ∈ (p.serve env rs).1, a.isOk = true) : R p none (p.serve env rs).2 := by
  induction rs generalizing p with
  | nil => exact h.refl p
  | cons r rest ih =>
    obtain ⟨answer, hanswer⟩ :=
      Pass.exists_of_isOk (answered (p.resolve env r).1 List.mem_cons_self)
    have yields : Pass.Yields ((Compiler.serving env r.element r.type).request env r) p answer
        (p.resolve env r).2 := Prod.ext hanswer rfl
    have first := (h.request fun call hcall =>
      hc _ call (asked r List.mem_cons_self call hcall)).yields yields
    exact h.trans first (ih (fun r hr => asked r (List.mem_cons_of_mem _ hr))
      fun a ha => answered a (List.mem_cons_of_mem _ ha))

namespace Pass

theorem grows_after (env : Environment) (rs : List Request) : Grows {} (after env rs) :=
  (frame_grows env).serve {} rs

/-- Between requests no definition is in progress. -/
theorem idle_after (env : Environment) (rs : List Request) :
    (after env rs).registry.inProgress = [] :=
  (grows_after env rs).inProgress

end Pass

end Schemata
