import Schemata.Proofs.Translation.Simulation

/-!
# A pass refines the translation

A pass builds every definition once, although definitions lead to each other in circles.  What
it has registered in the end is what the translation gives with the names of the pass, as long
as instantiations that share a name have the same declaration and the same bindings.
-/
namespace Schemata

open Pass

namespace Translation

/-- The translation with the names that a fresh pass gives while it serves some types. -/
def ofRun (env : Environment) (mediaTypes : List String) (types : List TypeRef) : Translation where
  env := env
  mediaTypes := mediaTypes
  name? := (after env (requestsFor mediaTypes types)).nameOf? env

/-- Instantiations share a name only if their declarations and bindings are the same. -/
def NamesApart (T : Translation) (roots : List TypeRef) : Prop :=
  ∀ t t' name, T.Instantiation roots t → T.Instantiation roots t' → T.name? t = some name →
    T.name? t' = some name →
      T.env.types.declOf? t = T.env.types.declOf? t' ∧
        T.env.types.bindings t = T.env.types.bindings t'

variable {T : Translation} {z : Pass} {roots : List TypeRef}

/-- A pass without a definition in progress is before the end that it grows into. -/
theorem before_of_grows {q : Pass} (grows : Grows q z) (idle : q.registry.inProgress = []) :
    (T.upTo z roots).before q := by
  refine ⟨fun key name h => grows.assigned h, fun name known => ?_⟩
  simpa [isKnown, Registry.isInProgress, grows.inProgress, idle] using grows.isKnown known

/-- A request for one of the types keeps all entries faithful, and its answer is the
translation. -/
theorem faithful_resolve (names : ∀ t, T.name? t = z.nameOf? T.env t)
    (bare : T.env.types.isBare = true) {t : TypeRef} (root : t ∈ roots) {p : Pass}
    {answer : Option Schema} (idle : p.registry.inProgress = [])
    (sound : (T.upTo z roots).sound p)
    (answered : (p.resolve T.env { type := t, scope := T.scope }).1 = .ok answer)
    (ends : Grows (p.resolve T.env { type := t, scope := T.scope }).2 z) :
    (T.upTo z roots).sound (p.resolve T.env { type := t, scope := T.scope }).2 ∧
      ∃ found, T.Translates t found ∧ answer = found.map Resolved.outer ∧
        T.Every (T.Named z) t := by
  have follows : T.Follows z roots (Budget.depth T.env none t)
      (Compiler.ofDepth T.env (Budget.depth T.env none t)) := follows_ofDepth names bare _
  have request : Ensures (T.upTo z roots) True
      ((Compiler.serving T.env none t).request T.env { type := t, scope := T.scope })
      fun answer => ∃ found, T.Translates t found ∧ answer = found.map Resolved.outer ∧
        T.Every (T.Named z) t := by
    refine ((follows.resolve saysNothing_none t).under fun _ m hm => .root root hm).bind
      fun found => ?_
    cases found with
    | none => exact .pure fun h => ⟨none, translates_of_ofDepth h.2.1, rfl, h.2.2⟩
    | some r => exact .pure fun h => ⟨some r, translates_of_ofDepth h.2.1, rfl, h.2.2⟩
  have yields : Yields
      ((Compiler.serving T.env none t).request T.env { type := t, scope := T.scope }) p answer
      (p.resolve T.env { type := t, scope := T.scope }).2 := Prod.ext answered rfl
  obtain ⟨grows, promise⟩ := request p answer _ yields
  exact promise trivial (before_of_grows ends (grows.inProgress.trans idle)) sound

/-- So it is for any number of requests that are all answered. -/
theorem faithful_serve (names : ∀ t, T.name? t = z.nameOf? T.env t)
    (bare : T.env.types.isBare = true) {types : List TypeRef} (own : types ⊆ roots) {p : Pass}
    (idle : p.registry.inProgress = []) (sound : (T.upTo z roots).sound p)
    (answered : ∀ a ∈ (serve T.env p (requestsFor T.mediaTypes types)).1, a.isOk = true)
    (ends : (serve T.env p (requestsFor T.mediaTypes types)).2 = z) :
    (T.upTo z roots).sound z ∧ ∀ (i : Nat) t, types[i]? = some t → ∃ found, T.Translates t found ∧
      (serve T.env p (requestsFor T.mediaTypes types)).1[i]? =
        some (.ok (found.map Resolved.outer)) ∧ T.Every (T.Named z) t := by
  induction types generalizing p with
  | nil => exact ⟨ends ▸ sound, fun i t h => by cases h⟩
  | cons t rest ih =>
    obtain ⟨root, hrest⟩ := List.cons_subset.mp own
    obtain ⟨answer, hanswer⟩ := exists_of_isOk (answered _ List.mem_cons_self)
    have frame := frame_grows T.env
    have later : Grows (p.resolve T.env { type := t, scope := T.scope }).2 z := by
      rw [← ends]
      exact frame.serve _ (requestsFor T.mediaTypes rest)
    obtain ⟨sound', found, translates, rfl, named⟩ :=
      faithful_resolve names bare root idle sound hanswer later
    have idle' : (p.resolve T.env { type := t, scope := T.scope }).2.registry.inProgress = [] := by
      rw [(frame.resolve p _).inProgress, idle]
    obtain ⟨soundEnd, translated⟩ := ih hrest idle' sound'
      (fun a ha => answered a (List.mem_cons_of_mem _ ha)) ends
    refine ⟨soundEnd, fun i t' ht' => ?_⟩
    cases i with
    | zero =>
      cases ht'
      exact ⟨found, translates, congrArg some hanswer, named⟩
    | succ i => exact translated i t' ht'

/-- An instantiation of a name has the definition that is registered under the name, and all
that it mentions is named. -/
theorem faithful_of_named (apart : T.NamesApart roots) (sound : (T.upTo z roots).sound z)
    {t : TypeRef} {d : Decl} (inst : T.Instantiation roots t)
    (declared : T.env.types.declOf? t = some d) (named : T.Named z t) :
    ∃ name s, T.name? t = some name ∧ T.Defines t s ∧
      z.registry.get? name = some { s with name := some name } ∧
      ∀ m, T.DefinitionMentions d (T.env.types.bindings t) m → T.Named z m := by
  obtain ⟨name, hname, registered⟩ := named
  obtain ⟨s', hs'⟩ := Option.isSome_iff_exists.mp registered
  obtain ⟨t', d', s, inst', declared', hname', defines, same, mentioned⟩ :=
    sound (name, s') (Assoc.mem_of_get? hs')
  obtain ⟨sameDecl, sameBindings⟩ := apart t t' name inst inst' hname hname'
  have hd : d' = d := Option.some.inj (declared'.symm.trans (sameDecl.symm.trans declared))
  subst hd
  refine ⟨name, s, hname, defines.congr sameDecl.symm sameBindings.symm, ?_, ?_⟩
  · rw [← same]
    exact hs'
  · rw [sameBindings]
    exact mentioned

/-- Every instantiation is named, since the types are and each definition passes it on. -/
theorem named_of_instantiation (apart : T.NamesApart roots) (sound : (T.upTo z roots).sound z)
    (mentioned : ∀ t ∈ roots, T.Every (T.Named z) t) {t : TypeRef}
    (inst : T.Instantiation roots t) : T.Named z t := by
  induction inst with
  | root h hm => exact mentioned _ h _ hm
  | nested outer declared hm ih =>
    obtain ⟨_, _, _, _, _, all⟩ := faithful_of_named apart sound outer declared ih
    exact all _ hm

theorem Named.declared (names : ∀ t, T.name? t = z.nameOf? T.env t) {t : TypeRef}
    (h : T.Named z t) : ∃ d, T.env.types.declOf? t = some d := by
  obtain ⟨name, hname, _⟩ := h
  rw [names] at hname
  obtain ⟨d, hd, -⟩ := Option.bind_eq_some_iff.mp hname
  exact ⟨d, hd⟩

/-- In a fresh pass that answers all requests for some types, whose universe has neither
directives nor documentation, every instantiation has a name under which its definition is
registered, nothing else is registered, and each answer is the translation of its type. -/
theorem serve_refines (env : Environment) (mediaTypes : List String) (types : List TypeRef)
    (bare : env.types.isBare = true)
    (answered : ∀ a ∈ answers env (requestsFor mediaTypes types), a.isOk = true)
    (apart : (ofRun env mediaTypes types).NamesApart types) :
    (∀ t, (ofRun env mediaTypes types).Instantiation types t →
      ∃ name s, (ofRun env mediaTypes types).name? t = some name ∧
        (ofRun env mediaTypes types).Defines t s ∧
        (after env (requestsFor mediaTypes types)).registry.get? name =
          some { s with name := some name }) ∧
    (∀ entry ∈ (after env (requestsFor mediaTypes types)).registry.schemas,
      ∃ t s, (ofRun env mediaTypes types).Instantiation types t ∧
        (ofRun env mediaTypes types).name? t = some entry.1 ∧
        (ofRun env mediaTypes types).Defines t s ∧
        entry.2 = { s with name := some entry.1 }) ∧
    ∀ (i : Nat) t, types[i]? = some t → ∃ found, (ofRun env mediaTypes types).Translates t found ∧
      (answers env (requestsFor mediaTypes types))[i]? =
        some (.ok (found.map Resolved.outer)) := by
  obtain ⟨sound, translated⟩ := faithful_serve (T := ofRun env mediaTypes types)
    (z := after env (requestsFor mediaTypes types)) (fun _ => rfl) bare
    (List.Subset.refl types) rfl (fun _ h => by cases h) answered rfl
  have mentioned : ∀ t ∈ types, (ofRun env mediaTypes types).Every
      ((ofRun env mediaTypes types).Named (after env (requestsFor mediaTypes types))) t := by
    intro t ht
    obtain ⟨i, hi⟩ := List.getElem?_of_mem ht
    obtain ⟨_, _, _, named⟩ := translated i t hi
    exact named
  refine ⟨fun t inst => ?_, fun entry hentry => ?_, fun i t hi => ?_⟩
  · have named := named_of_instantiation apart sound mentioned inst
    obtain ⟨d, declared⟩ := named.declared fun _ => rfl
    obtain ⟨name, s, hname, defines, registered, -⟩ :=
      faithful_of_named apart sound inst declared named
    exact ⟨name, s, hname, defines, registered⟩
  · obtain ⟨t, d, s, inst, _, hname, defines, same, -⟩ := sound entry hentry
    exact ⟨t, s, inst, hname, defines, same⟩
  · obtain ⟨found, translates, answer, -⟩ := translated i t hi
    exact ⟨found, translates, answer⟩

/-- A generic record whose instantiations each hold themselves in a list. -/
def treeDecl : Decl where
  name := "com.acme.Tree"
  params := [⟨"T", []⟩]
  members :=
    [{ name := "value", type := .plain "T" },
      { name := "children", type := .generic "list" [.generic "com.acme.Tree" [.plain "T"]] }]

def trees : Environment where
  types := (Universe.initial .standard).insertAll [treeDecl]
  config := {}

def treeOf (item : Primitive) : TypeRef := .generic "com.acme.Tree" [.plain item.name]

def treeTypes : List TypeRef := [treeOf .string, treeOf .int]

/-- The translation with the names of a pass that serves two trees. -/
def treeRun : Translation := ofRun trees [] treeTypes

theorem every_tree {item : Primitive} {P : TypeRef → Prop} :
    treeRun.Every P (treeOf item) ↔ P (treeOf item) := by
  refine every_iff.trans (everyOpened_direct ?_ ?_) <;> cases item <;> rfl

/-- A tree holds its item, which mentions nothing, and a list of trees. -/
theorem every_definition_tree {item : Primitive} {d : Decl} {P : TypeRef → Prop}
    (declared : treeRun.env.types.declOf? (treeOf item) = some d) (h : P (treeOf item)) :
    ∀ m, treeRun.DefinitionMentions d (treeRun.env.types.bindings (treeOf item)) m → P m := by
  have hd : d = treeDecl.canonical .standard := Option.some.inj (declared.symm.trans rfl)
  subst hd
  have members : treeRun.memberTypes (treeDecl.canonical .standard)
      (treeRun.env.types.bindings (treeOf item)) =
        [.plain item.name, .generic "list" [treeOf item]] := by
    cases item <;> rfl
  have ancestors : treeRun.ancestors (treeDecl.canonical .standard)
      (treeRun.env.types.bindings (treeOf item)) = [] := by
    cases item <;> rfl
  have value : treeRun.Every P (.plain item.name) := by
    refine every_iff.mpr (everyOpened_nil ?_ ?_) <;> cases item <;> rfl
  have children : treeRun.Every P (.generic "list" [treeOf item]) := by
    refine every_iff.mpr ((everyOpened_inside ?_ ?_).mpr (every_tree.mpr h)) <;>
      cases item <;> rfl
  rintro m ⟨-, ⟨type, htype, hm⟩ | hm⟩
  · rw [members] at htype
    rcases List.mem_cons.mp htype with rfl | htype
    · exact value m hm
    · rw [List.mem_singleton.mp htype] at hm
      exact children m hm
  · rw [ancestors] at hm
    cases hm

theorem exists_item {t : TypeRef} (h : t ∈ treeTypes) : ∃ item, t = treeOf item := by
  rcases List.mem_cons.mp h with rfl | h
  · exact ⟨.string, rfl⟩
  · exact ⟨.int, List.mem_singleton.mp h⟩

theorem mem_of_instantiation {m : TypeRef} (h : treeRun.Instantiation treeTypes m) :
    m ∈ treeTypes := by
  induction h with
  | root ht hm =>
    obtain ⟨item, rfl⟩ := exists_item ht
    exact (every_tree (P := (· ∈ treeTypes))).mpr ht _ hm
  | nested _ declared hm ih =>
    obtain ⟨item, rfl⟩ := exists_item ih
    exact every_definition_tree (P := (· ∈ treeTypes)) declared ih _ hm

theorem instantiation_of_mem {t : TypeRef} (h : t ∈ treeTypes) :
    treeRun.Instantiation treeTypes t := by
  obtain ⟨item, rfl⟩ := exists_item h
  exact every_tree.mp fun m hm => .root h hm

/-- Trees of texts and trees of numbers are registered under their names, with the references
to themselves that the translation gives them. -/
theorem serve_refines_trees :
    (trees.types.isBare = true ∧
      (∀ a ∈ answers trees (requestsFor [] treeTypes), a.isOk = true) ∧
      treeRun.NamesApart treeTypes) ∧
    ∀ t ∈ treeTypes, ∃ name s, treeRun.name? t = some name ∧ treeRun.Defines t s ∧
      (after trees (requestsFor [] treeTypes)).registry.get? name =
        some { s with name := some name } := by
  have bare : trees.types.isBare = true := by decide +kernel
  have answered : ∀ a ∈ answers trees (requestsFor [] treeTypes), a.isOk = true := by
    decide +kernel
  have text : treeRun.name? (treeOf .string) = some "Tree_string_" := by decide +kernel
  have number : treeRun.name? (treeOf .int) = some "Tree_int_" := by decide +kernel
  have apart : treeRun.NamesApart treeTypes := by
    intro t t' name inst inst' hname hname'
    have alternatives {t : TypeRef} (h : t ∈ treeTypes) : t = treeOf .string ∨ t = treeOf .int := by
      simpa [treeTypes] using h
    rcases alternatives (mem_of_instantiation inst) with rfl | rfl <;>
      rcases alternatives (mem_of_instantiation inst') with rfl | rfl
    · exact ⟨rfl, rfl⟩
    · exact absurd (text.symm.trans (hname.trans (hname'.symm.trans number))) (by decide)
    · exact absurd (number.symm.trans (hname.trans (hname'.symm.trans text))) (by decide)
    · exact ⟨rfl, rfl⟩
  refine ⟨⟨bare, answered, apart⟩, fun t ht => ?_⟩
  exact (serve_refines trees [] treeTypes bare answered apart).1 t (instantiation_of_mem ht)

end Translation

end Schemata
