import Schemata.Proofs.Pass.Coverage
import Schemata.Proofs.Translation.Refinement

/-!
# Definitions without directives look back

Without directives and documentation a definition reads no schema at all: it is made of the
names that its members and ancestors are given.  So it is built alike in whatever order the
types are asked for.
-/
namespace Schemata

open Pass

namespace Translation

variable {T : Translation} {roots : List TypeRef}

/-- What an opened occurrence leads to is a type that it mentions, or lies inside it. -/
theorem mem_ofOpened {element : Option Element} {t : TypeRef} {scope : Scope} {call : Call}
    (h : call ∈ Call.ofOpened T.env.types element t scope) :
    (∃ m e, call = .define e m scope ∧ (e = none ∨ e = element) ∧ m ∈ T.direct t) ∨
      ∃ part, call = .resolve none part scope ∧ part ∈ T.inside t := by
  unfold Call.ofOpened at h
  unfold Translation.direct Translation.inside
  cases hkind : T.env.types.kindOf t with
  | array item =>
    simp only [hkind] at h ⊢
    split at h
    · cases h
    · rename_i other
      exact .inr ⟨item, List.mem_singleton.mp h, by simp [other]⟩
  | map d =>
    simp only [hkind] at h ⊢
    obtain ⟨key, rest, hargs, ⟨⟨d, isEnum⟩, rfl⟩ | ⟨said, rfl⟩⟩ := Call.mem_ofMap h
    · exact .inl ⟨key, none, rfl, .inl rfl, by simp [hargs, Universe.isEnum, isEnum]⟩
    · exact .inr ⟨_, rfl, by rw [hargs, mapValue, if_pos said]; exact List.mem_singleton_self _⟩
  | iterable d =>
    simp only [hkind] at h ⊢
    split at h
    · rename_i declared
      exact .inl ⟨t, element, List.mem_singleton.mp h, .inr rfl, by simp [declared]⟩
    · rename_i plain
      obtain ⟨item, hitem, rfl⟩ := List.mem_map.mp h
      exact .inr ⟨item, rfl, by rwa [if_neg plain, List.take_one]⟩
  | enum d | record d | interface d =>
    rw [hkind] at h
    exact .inl ⟨t, element, List.mem_singleton.mp h, .inr rfl, List.mem_singleton_self t⟩
  | primitive | wrapper | placeholder | wildcard | unknown =>
    rw [hkind] at h
    cases h

/-- The call says nothing of what it is for, and is about instantiations of the roots. -/
def CallsFor (T : Translation) (roots : List TypeRef) : Call → Prop
  | .resolve element t _ => SaysNothing element ∧ T.Every (T.Instantiation roots) t
  | .define element t _ => SaysNothing element ∧ T.Instantiation roots t

theorem callsFor_ofOccurrence {element : Option Element} {t : TypeRef} {scope : Scope} {call : Call}
    (h : T.CallsFor roots (.resolve element t scope))
    (hcall : call ∈ Call.ofOccurrence T.env element t scope) : T.CallsFor roots call := by
  obtain ⟨quiet, every⟩ := h
  rw [Call.ofOccurrence, openOccurrence_of_saysNothing quiet] at hcall
  have opened := every_iff.mp every
  rcases mem_ofOpened hcall with ⟨m, e, rfl, he, direct⟩ | ⟨part, rfl, inside⟩
  · refine ⟨?_, opened.direct m direct⟩
    rcases he with rfl | rfl
    · exact saysNothing_none
    · exact quiet
  · exact ⟨saysNothing_none, opened.inside part inside⟩

theorem named_bare {m : Member} (h : m.directives = []) :
    Call.named m.directives.typeNames = [] := by
  rw [h]
  rfl

theorem callsFor_ofDefinition (bare : T.env.types.isBare = true) {t : TypeRef} {d : Decl}
    {call : Call} (inst : T.Instantiation roots t) (declared : T.env.types.declOf? t = some d)
    (hcall : call ∈ Call.ofDefinition T.env d (T.env.types.bindings t) {}) :
    T.CallsFor roots call := by
  have bareDecl : d.isBare = true := Universe.bare_decl bare declared
  have own : d.directives.get? .schema = none := by
    rw [Decl.bare_directives bareDecl]
    rfl
  have nested {m : TypeRef} (record : d.kind ≠ .enum)
      (h : (∃ type ∈ T.memberTypes d (T.env.types.bindings t), T.Mentions type m) ∨
        m ∈ T.ancestors d (T.env.types.bindings t)) : T.Instantiation roots m :=
    .nested inst declared ⟨record, h⟩
  rcases Call.mem_ofDefinition hcall with
    ⟨record, parents, m, hm, rfl⟩ | ⟨record, m, hm, visible, rfl⟩ | ⟨m, hm, named⟩ | named
  · exact ⟨saysNothing_none, nested record (.inr (by rwa [ancestors, if_neg parents]))⟩
  · have type : m.type.substitute (T.env.types.bindings t) ∈
        T.memberTypes d (T.env.types.bindings t) :=
      List.mem_map.mpr ⟨m, List.mem_filter.mpr ⟨hm, visible⟩, rfl⟩
    exact ⟨fun e he => Option.some.inj he ▸ Element.bare_ofMember bareDecl hm,
      fun m' hm' => nested record (.inl ⟨_, type, hm'⟩)⟩
  · rw [named_bare (Decl.bare_member bareDecl hm).1] at named
    cases named
  · rw [own] at named
    cases named

/-- What requests for the roots lead to is about instantiations of the roots. -/
theorem callsFor_of_reached (bare : T.env.types.isBare = true) {call : Call}
    (h : Reached T.env roots call) : T.CallsFor roots call := by
  induction h with
  | asked h => exact ⟨saysNothing_none, fun m hm => .root h hm⟩
  | inside _ hcall ih => exact callsFor_ofOccurrence ih hcall
  | beyond h declared hcall ih =>
    obtain rfl : _ = ({} : Scope) := h.scope_eq
    exact callsFor_ofDefinition bare ih.2 declared hcall

variable {z : Pass}

/-- A definition that the roots lead to is an instantiation with the name of the definition. -/
theorem instantiation_of_gives (names : ∀ t, T.name? t = z.nameOf? T.env t)
    (bare : T.env.types.isBare = true) {name : String} {d : Decl} {t : TypeRef}
    (h : Gives T.env roots z name d t) :
    T.Instantiation roots t ∧ T.env.types.declOf? t = some d ∧ T.name? t = some name := by
  obtain ⟨element, key, reached, declared, hkey, given⟩ := h
  obtain ⟨quiet, inst⟩ := callsFor_of_reached bare reached
  rw [nameRequest_of_saysNothing quiet] at hkey
  refine ⟨inst, declared, (names t).trans ?_⟩
  simp only [Pass.nameOf?, Option.bind_eq_bind, declared, Option.bind_some, hkey, given]

theorem NamesApart.gives (names : ∀ t, T.name? t = z.nameOf? T.env t)
    (bare : T.env.types.isBare = true) (apart : T.NamesApart roots) :
    Pass.NamesApart T.env roots z := by
  intro name d t d' t' gives gives'
  obtain ⟨inst, declared, hname⟩ := instantiation_of_gives names bare gives
  obtain ⟨inst', declared', hname'⟩ := instantiation_of_gives names bare gives'
  obtain ⟨sameDecl, sameBindings⟩ := apart t t' name inst inst' hname hname'
  exact ⟨Option.some.inj (declared.symm.trans (sameDecl.trans declared')), sameBindings⟩

end Translation

theorem Pass.nameOf?_congr {env : Environment} {z V : Pass} (h : Shows .loose V z)
    (h' : Shows .loose z V) (t : TypeRef) : z.nameOf? env t = V.nameOf? env t := by
  have same (key : String × String) : z.names.assigned.get? key = V.names.assigned.get? key :=
    Option.ext fun name => ⟨h.assigned, h'.assigned⟩
  simp only [nameOf?, same]

namespace Translation

variable {T : Translation} {roots : List TypeRef} {z : Pass}

/-- What is built at the end, while its own name is in progress, is the definition. -/
theorem defines_of_reopened (names : ∀ t, T.name? t = z.nameOf? T.env t)
    (bare : T.env.types.isBare = true) (sound : (T.upTo z roots).sound z)
    (idle : z.registry.inProgress = []) {t : TypeRef} {d : Decl} (inst : T.Instantiation roots t)
    (declared : T.env.types.declOf? t = some d) {name : String} (known : z.isKnown name = true)
    {depth : Nat} {s : Schema} {ds : Diagnostics}
    (h : Yields ((Compiler.ofDepth T.env depth).build T.env d t T.scope) (z.reopened name) s
      ((z.reopened name).withDiagnostics ds)) : T.Defines t s := by
  have follows : T.Follows z roots depth (Compiler.ofDepth T.env depth) :=
    follows_ofDepth names bare depth
  obtain ⟨-, promise⟩ := follows.build (Universe.bare_decl bare declared) t _ s _ h
  have before : (T.upTo z roots).before ((z.reopened name).withDiagnostics ds) := by
    refine ⟨fun _ _ => id, fun other h => ?_⟩
    have known : z.isKnown other = true := by
      rcases isKnown_reopened.mp h with rfl | old
      · exact known
      · exact old
    simpa [isKnown, Registry.isInProgress, idle] using known
  obtain ⟨-, defines, -⟩ := promise (fun m hm => .nested inst declared hm) before
    fun entry hentry => sound entry (List.mem_of_mem_filter hentry)
  exact defines_of_definition declared defines

/-- Without directives and documentation definitions look back, as long as instantiations that
share a name have the same declaration and the same bindings. -/
theorem looksBack_of_bare {env : Environment} {types : List TypeRef}
    (bare : env.types.isBare = true) (served : Served env types)
    (apart : (ofRun env [] types).NamesApart types) : LooksBack env types := by
  have complete := served.complete (apart.gives (fun _ => rfl) bare)
  intro order perm served' earlier name s later split _ d t gives depth found ds built
  have shows := complete.shows_after served' perm.subset
  have shows' := (complete.of_perm served' perm).shows_after served perm.symm.subset
  have names (t : TypeRef) : (ofRun env [] types).name? t =
      (after env (requestsFor [] order)).nameOf? env t := nameOf?_congr shows' shows t
  obtain ⟨sound, -⟩ := faithful_serve (T := ofRun env [] types) (fun _ => rfl) bare
    (List.Subset.refl types) rfl (fun _ h => by cases h) served.answered rfl
  obtain ⟨sound', -⟩ := faithful_serve (T := ofRun env [] types) names bare perm.subset rfl
    (fun _ h => by cases h) served'.answered rfl
  have registered : (name, s) ∈ (after env (requestsFor [] types)).registry.schemas := by
    rw [split]
    exact List.mem_append_right _ List.mem_cons_self
  obtain ⟨t', d', s', inst', -, hname', defines, hs, -⟩ := sound _ registered
  obtain ⟨inst, declared, hname⟩ :=
    instantiation_of_gives (T := ofRun env [] types) (fun _ => rfl) bare gives
  obtain ⟨sameDecl, sameBindings⟩ := apart t' t name inst' inst hname' hname
  have again : (ofRun env [] types).Defines t found :=
    defines_of_reopened names bare sound' (idle_after env _) inst declared
      (shows'.known (isKnown_of_mem_schemas registered)) built
  obtain rfl := (defines.congr sameDecl sameBindings).unique again
  have bareDecl : d.isBare = true := Universe.bare_decl bare declared
  rw [Decl.registered, Decl.documented_of_bare bareDecl]
  exact hs.symm

end Translation

end Schemata
