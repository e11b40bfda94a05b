import Schemata.Proofs.Pass.Growth

/-!
# Two runs in lockstep

Two runs over kindred environments start from states with the same schemas and names.  They stay
together as long as they are given the same names: then they answer alike and leave the same
schemas and names behind.  They part only where the first is given a name that leaves its table
marked and the second is refused, and what is marked stays marked.
-/
namespace Schemata

open Pass

/-- How the diagnostics of two runs correspond, and which tables tell that they have parted. -/
structure Coupling where
  like : Diagnostic → Diagnostic → Prop
  marked : NameTable → Prop

namespace Coupling

variable {C : Coupling}

/-- Two runs that have not parted. -/
structure Linked (C : Coupling) (p p' : Pass) : Prop where
  registry : p'.registry = p.registry
  names : p'.names = p.names
  diagnostics : List.Forall₂ C.like p.diagnostics p'.diagnostics
  unmarked : ¬ C.marked p.names

/-- What two runs come to: the same, or the second is refused where the first is marked. -/
inductive Outcome (C : Coupling) : Except Stop α × Pass → Except Stop α × Pass → Prop where
  | agree {result : Except Stop α} {q q' : Pass} (linked : C.Linked q q') :
      Outcome C (result, q) (result, q')
  | part {result : Except Stop α} {e : DuplicateName} {q q' : Pass} (marked : C.marked q.names) :
      Outcome C (result, q) (.error (.duplicateName e), q')

/-- Two steps keep two runs together until they part, and marks are kept by the first. -/
structure Steps (C : Coupling) (α : Type) (m m' : PassM α) : Prop where
  meets {p p' : Pass} : C.Linked p p' → C.Outcome (m.run.run p) (m'.run.run p')
  keeps {p : Pass} : C.marked p.names → C.marked (m.run.run p).2.names

theorem Linked.withDiagnostics {p p' : Pass} (h : C.Linked p p') {ds ds' : Diagnostics}
    (alike : List.Forall₂ C.like ds ds') :
    C.Linked (p.withDiagnostics ds) (p'.withDiagnostics ds') :=
  ⟨h.registry, h.names, List.rel_append h.diagnostics alike, h.unmarked⟩

/-- A change of the registry that depends on the registry alone. -/
theorem Linked.withRegistry {p p' : Pass} (h : C.Linked p p') (f : Registry → Registry) :
    C.Linked { p with registry := f p.registry } { p' with registry := f p'.registry } :=
  ⟨congrArg f h.registry, h.names, h.diagnostics, h.unmarked⟩

/-- Where nothing is ever marked, two runs never part. -/
theorem Outcome.agreed {α : Type} {out out' : Except Stop α × Pass} (h : C.Outcome out out')
    (unmarked : ∀ names, ¬ C.marked names) : out'.1 = out.1 ∧ C.Linked out.2 out'.2 := by
  cases h with
  | agree linked => exact ⟨rfl, linked⟩
  | part marked => exact absurd marked (unmarked _)

/-- Where diagnostics correspond only to themselves, two runs that have not parted are one. -/
theorem Linked.eq {p p' : Pass} (h : C.Linked p p') (exact : ∀ {d d'}, C.like d d' → d = d') :
    p' = p := by
  have diagnostics : p.diagnostics = p'.diagnostics := by
    rw [← List.forall₂_eq_eq_eq]
    exact h.diagnostics.imp fun _ _ => exact
  cases p
  cases p'
  cases h.registry
  cases h.names
  cases diagnostics
  rfl

namespace Steps

theorem pure {α : Type} (a : α) : C.Steps α (Pure.pure a) (Pure.pure a) :=
  ⟨fun linked => .agree linked, id⟩

theorem report {ds ds' : Diagnostics} (alike : List.Forall₂ C.like ds ds') :
    C.Steps Unit (Pass.report ds) (Pass.report ds') :=
  ⟨fun linked => .agree (linked.withDiagnostics alike), id⟩

theorem throw {α : Type} (e : Stop) : C.Steps α (MonadExcept.throw e) (MonadExcept.throw e) :=
  ⟨fun linked => .agree linked, id⟩

theorem bind {α β : Type} {m m' : PassM α} {f f' : α → PassM β} (hm : C.Steps α m m')
    (hf : ∀ a, C.Steps β (f a) (f' a)) : C.Steps β (m >>= f) (m' >>= f') where
  meets {p p'} linked := by
    have first := hm.meets linked
    rw [run_bind, run_bind]
    generalize m.run.run p = out at first
    generalize m'.run.run p' = out' at first
    cases first with
    | @agree result q q' linked =>
      cases result with
      | ok a => exact (hf a).meets linked
      | error e => exact .agree linked
    | @part result e q q' marked =>
      cases result with
      | ok a => exact .part ((hf a).keeps marked)
      | error e => exact .part marked
  keeps {p} marked := by
    have first := hm.keeps marked
    rw [run_bind]
    generalize m.run.run p = out at first
    obtain ⟨result, q⟩ := out
    cases result with
    | ok a => exact (hf a).keeps first
    | error e => exact first

theorem look {α : Type} {f f' : Pass → PassM α}
    (hf : ∀ p p', p'.registry = p.registry → C.Steps α (f p) (f' p')) :
    C.Steps α (MonadState.get >>= f) (MonadState.get >>= f') where
  meets {p p'} linked := (hf p p' linked.registry).meets linked
  keeps {p} marked := (hf p p rfl).keeps marked

theorem register (name : String) (s : Schema) :
    C.Steps Unit (Pass.register name s) (Pass.register name s) :=
  ⟨fun linked => .agree (linked.withRegistry fun r => (r.register name s).2), id⟩

theorem defining {α : Type} {m m' : PassM α} (hm : C.Steps α m m') (name : String) :
    C.Steps α (Pass.defining name m) (Pass.defining name m') where
  meets {p p'} linked := by
    have body := hm.meets (linked.withRegistry fun r => (r.start name).2)
    rw [run_defining, run_defining]
    change C.Outcome (m.run.run (startName name p)) (m'.run.run (startName name p')) at body
    generalize m.run.run (startName name p) = out at body ⊢
    generalize m'.run.run (startName name p') = out' at body ⊢
    cases body with
    | agree linked => exact .agree (linked.withRegistry (·.finish name))
    | part marked => exact .part marked
  keeps {p} marked := hm.keeps (p := startName name p) marked

/-- Whatever is made of steps in pairs keeps two runs together. -/
theorem pairing {scopes : Scope → Scope → Prop} (refl : ∀ d, C.like d d) (detached : scopes {} {})
    (view : ∀ {scope scope'}, scopes scope scope' → scope'.view = scope.view) :
    Pairing C.like scopes C.Steps where
  advised _ := refl _
  detached := detached
  view := view
  pure := pure
  report := report
  look := look
  bind := bind

end Steps

/-- A table gives both runs a name, or marks the first and refuses the second. -/
inductive Given (C : Coupling) :
    Except DuplicateName (String × NameTable) → Except DuplicateName (String × NameTable) → Prop
    where
  | same {name : String} {names : NameTable} (unmarked : ¬ C.marked names) :
      Given C (.ok (name, names)) (.ok (name, names))
  | refused (e : DuplicateName) : Given C (.error e) (.error e)
  | part {name : String} {names : NameTable} {e : DuplicateName} (marked : C.marked names) :
      Given C (.ok (name, names)) (.error e)

/-- Two environments in which two runs see the same until they part. -/
structure Fits (C : Coupling) (env env' : Environment) : Prop where
  kin : env.Kin env'
  refl (d : Diagnostic) : C.like d d
  opens (element : Option Element) (t : TypeRef) :
    List.Forall₂ C.like (openOccurrence env element t).2 (openOccurrence env' element t).2
  undeclared (subject : String) (t : TypeRef) :
    C.like (.undeclared env.types subject t) (.undeclared env'.types subject t)
  assigns {names : NameTable} (candidate origin : String) : ¬ C.marked names →
    C.Given (names.assign env.config.naming candidate origin)
      (names.assign env'.config.naming candidate origin)
  keeps {names later : NameTable} {candidate origin name : String} : C.marked names →
    names.assign env.config.naming candidate origin = .ok (name, later) → C.marked later

variable {env env' : Environment} {scopes : Scope → Scope → Prop}

/-- Over one environment two runs never part, whatever their diagnostics have in common. -/
theorem fits_refl {like : Diagnostic → Diagnostic → Prop} (refl : ∀ d, like d d)
    (env : Environment) : Fits ⟨like, fun _ => False⟩ env env where
  kin := .refl env
  refl := refl
  opens _ _ := List.forall₂_same.mpr fun d _ => refl d
  undeclared _ _ := refl _
  assigns {names} candidate origin _ := by
    cases names.assign env.config.naming candidate origin with
    | error e => exact .refused e
    | ok found => exact .same id
  keeps none := False.elim none

theorem Fits.assignName (fits : C.Fits env env') (request : NameRequest) :
    C.Steps String (Pass.assignName env request) (Pass.assignName env' request) where
  meets {p p'} linked := by
    have given (key : String × String) : C.Given (p.names.assign env.config.naming key.1 key.2)
        (p.names.assign env'.config.naming key.1 key.2) := fits.assigns key.1 key.2 linked.unmarked
    rw [run_assignName, run_assignName, linked.names, NameTable.compute, NameTable.compute,
      fits.kin.candidate]
    cases request.candidate env.config env.types with
    | none => exact .agree linked
    | some key =>
      have given := given key
      simp only [Option.map_some]
      generalize p.names.assign env.config.naming key.1 key.2 = found at given
      generalize p.names.assign env'.config.naming key.1 key.2 = found' at given
      cases given with
      | same unmarked => exact .agree ⟨linked.registry, rfl, linked.diagnostics, unmarked⟩
      | refused e =>
        have reported := List.rel_append linked.diagnostics
          (.cons (fits.refl (duplicateSchemaName request.type.display e)) .nil)
        exact .agree ⟨linked.registry, rfl, reported, linked.unmarked⟩
      | part marked => exact .part marked
  keeps {p} marked := by
    rw [run_assignName, NameTable.compute]
    cases request.candidate env.config env.types with
    | none => exact marked
    | some key =>
      cases given : p.names.assign env.config.naming key.1 key.2 with
      | error e =>
        simp only [Option.map_some, given]
        exact marked
      | ok found =>
        simp only [Option.map_some, given]
        exact fits.keeps marked given

/-- A definition keeps two runs together, if what it leads to does. -/
theorem Fits.defined (fits : C.Fits env env') (h : Pairing C.like scopes C.Steps)
    {c c' : Compiler} {element : Option Element} {t : TypeRef} {scope scope' : Scope}
    (hs : scopes scope scope')
    (hc : ∀ d, env.types.declOf? t = some d →
      ∀ call ∈ Call.ofDefinition env d (env.types.bindings t) scope,
        call.Pairs scopes C.Steps c c') :
    C.Steps _ (c.defined env element t scope) (c'.defined env' element t scope') := by
  unfold Compiler.defined
  rw [fits.kin.types.declOf?]
  cases declared : env.types.declOf? t with
  | none => exact h.bind (h.report (.cons (fits.undeclared _ _) .nil)) fun _ => h.pure _
  | some d =>
    have request : d.nameRequest element t scope' = d.nameRequest element t scope := by
      unfold Decl.nameRequest
      rw [h.view hs]
    dsimp only
    rw [request]
    refine h.bind (fits.assignName _) fun name => h.look fun p p' same => ?_
    rw [isKnown, isKnown, same]
    split
    · exact h.pure _
    · refine h.bind (Steps.defining (h.build fits.kin (hc d declared) hs) name) fun s => ?_
      exact h.bind (Steps.register name _) fun _ => h.pure _

/-- Compilers of every depth keep two runs together on a set of calls that leads nowhere else and
in which both scopes carry the same streams. -/
theorem Fits.ofDepth (fits : C.Fits env env') (h : Pairing C.like scopes C.Steps)
    (calls : Call → Prop)
    (below : ∀ {element t scope}, calls (.resolve element t scope) →
      ∀ call ∈ Call.ofOccurrence env element t scope, calls call)
    (beyond : ∀ {element t scope d}, calls (.define element t scope) →
      env.types.declOf? t = some d →
        ∀ call ∈ Call.ofDefinition env d (env.types.bindings t) scope, calls call)
    (streams : ∀ {element t scope scope'}, calls (.resolve element t scope) →
      scopes scope scope' → (openOccurrence env element t).1.isStream = true →
        scope'.mediaTypes.any env.config.isStreaming =
          scope.mediaTypes.any env.config.isStreaming)
    (depth : Nat) {call : Call} (hcall : calls call) :
    call.Pairs scopes C.Steps (Compiler.ofDepth env depth) (Compiler.ofDepth env' depth) := by
  induction depth generalizing call with
  | zero => cases call <;> exact fun _ _ => Steps.throw _
  | succ depth ih =>
    cases call with
    | resolve element t scope =>
      exact fun scope' hs => h.occurrence fits.kin (fun call hmem => ih (below hcall call hmem)) hs
        (fits.opens element t) (fun _ => fits.undeclared _ _) (streams hcall hs)
    | define element t scope =>
      exact fun scope' hs => fits.defined h hs fun d declared call hmem =>
        ih (beyond hcall declared call hmem)

/-- In one scope any call keeps two runs together. -/
theorem Fits.ofDepth_eq (fits : C.Fits env env') (depth : Nat) (call : Call) :
    call.Pairs Eq C.Steps (Compiler.ofDepth env depth) (Compiler.ofDepth env' depth) :=
  fits.ofDepth (Steps.pairing fits.refl rfl fun same => same ▸ rfl) (fun _ => True)
    (fun _ _ _ => trivial) (fun _ _ _ _ => trivial) (fun _ same _ => same ▸ rfl) depth trivial

theorem Fits.request (fits : C.Fits env env') (depth : Nat) (r : Request) :
    C.Steps _ ((Compiler.ofDepth env depth).request env r)
      ((Compiler.ofDepth env' depth).request env' r) :=
  (Steps.pairing fits.refl rfl fun same => same ▸ rfl).request fits.kin rfl rfl rfl
    fun call _ => fits.ofDepth_eq depth call

theorem Fits.resolve (fits : C.Fits env env') {p p' : Pass} (linked : C.Linked p p')
    (r : Request) : C.Outcome (p.resolve env r) (p'.resolve env' r) := by
  rw [Pass.resolve, Pass.resolve, fits.kin.serving]
  exact (fits.request _ r).meets linked

/-- What is marked stays marked. -/
theorem Fits.marked_serve (fits : C.Fits env env') {p : Pass} (marked : C.marked p.names)
    (rs : List Request) : C.marked (p.serve env rs).2.names := by
  induction rs generalizing p with
  | nil => exact marked
  | cons r rest ih =>
    have later : C.marked (p.resolve env r).2.names :=
      (fits.request (Budget.depth env r.element r.type) r).keeps marked
    exact ih later

/-- Requests are answered alike, unless one of them is refused to the second run while the first
is marked for good. -/
theorem Fits.serve (fits : C.Fits env env') {p p' : Pass} (linked : C.Linked p p')
    (rs : List Request) :
    ((p'.serve env' rs).1 = (p.serve env rs).1 ∧ C.Linked (p.serve env rs).2 (p'.serve env' rs).2) ∨
      (C.marked (p.serve env rs).2.names ∧
        ∃ e, .error (.duplicateName e) ∈ (p'.serve env' rs).1) := by
  induction rs generalizing p p' with
  | nil => exact .inl ⟨rfl, linked⟩
  | cons r rest ih =>
    have first := fits.resolve linked r
    simp only [Pass.serve]
    generalize p.resolve env r = out at first
    generalize p'.resolve env' r = out' at first
    cases first with
    | agree linked =>
      rcases ih linked with ⟨same, linked⟩ | ⟨marked, e, refused⟩
      · exact .inl ⟨congrArg _ same, linked⟩
      · exact .inr ⟨marked, e, List.mem_cons_of_mem _ refused⟩
    | part marked =>
      exact .inr ⟨fits.marked_serve marked rest, _, List.mem_cons_self⟩

end Coupling

end Schemata
