import Schemata.Proofs.Translation.Bare
import Schemata.Proofs.Translation.Mentions

/-!
# A pass follows the translation

Seen from the end of a pass, when all names are given, each step yields what the translation
gives with those names.  What is registered is the definition of an instantiation, although
the definitions that it refers to may still be in progress at that moment.
-/
namespace Schemata

open Pass

/-- The name that a pass has given to a declared type. -/
def Pass.nameOf? (z : Pass) (env : Environment) (t : TypeRef) : Option String := do
  let d ← env.types.declOf? t
  let key ← (d.nameRequest none t {}).candidate env.config env.types
  z.names.assigned.get? key

namespace Translation

variable (T : Translation) (z : Pass) (roots : List TypeRef)

/-- The type has a name, and a schema is registered under it. -/
def Named (t : TypeRef) : Prop :=
  ∃ name, T.name? t = some name ∧ z.registry.contains name = true

/-- An entry is the definition of an instantiation that has its name, and all that it mentions
is named. -/
def Faithful (entry : String × Schema) : Prop :=
  ∃ t d s, T.Instantiation roots t ∧ T.env.types.declOf? t = some d ∧
    T.name? t = some entry.1 ∧ T.Defines t s ∧ entry.2 = { s with name := some entry.1 } ∧
    ∀ m, T.DefinitionMentions d (T.env.types.bindings t) m → T.Named z m

/-- The end of a pass, which knows all names that were given before it. -/
def upTo : Horizon where
  before q :=
    (∀ key name, q.names.assigned.get? key = some name →
      z.names.assigned.get? key = some name) ∧
    ∀ name, q.isKnown name = true → z.registry.contains name = true
  sound p := ∀ entry ∈ p.registry.schemas, T.Faithful z roots entry
  earlier grows before := ⟨fun key name h => before.1 key name (grows.assigned h),
    fun name h => before.2 name (grows.isKnown h)⟩
  unfinished before := ⟨before.1, fun name h => before.2 name (isKnown_withSchema _ _ _ h)⟩
  unchanged same sound := by
    rw [same]
    exact sound

/-- What holds of everything that an occurrence mentions. -/
def Every (P : TypeRef → Prop) (t : TypeRef) : Prop := ∀ m, T.Mentions t m → P m

/-- What holds of everything that an opened occurrence mentions. -/
structure EveryOpened (P : TypeRef → Prop) (t : TypeRef) : Prop where
  direct : ∀ m ∈ T.direct t, P m
  inside : ∀ part ∈ T.inside t, T.Every P part

variable {T z roots} {c : Compiler} {depth : Nat} {pre : Prop}

theorem every_iff {P : TypeRef → Prop} {t : TypeRef} :
    T.Every P t ↔ T.EveryOpened P (T.content t).type := by
  constructor
  · intro h
    exact ⟨fun m hm => h m (.here hm), fun part hpart m hm => h m (.inside hpart hm)⟩
  · intro h m hm
    cases hm with
    | here hm => exact h.direct m hm
    | inside hpart hm => exact h.inside _ hpart m hm

section

variable {P : TypeRef → Prop} {t m part : TypeRef}

theorem everyOpened_nil (direct : T.direct t = []) (inside : T.inside t = []) :
    T.EveryOpened P t := by
  refine ⟨?_, ?_⟩
  · rw [direct]
    exact fun _ hm => by cases hm
  · rw [inside]
    exact fun _ hpart => by cases hpart

theorem everyOpened_direct (direct : T.direct t = [m]) (inside : T.inside t = []) :
    T.EveryOpened P t ↔ P m := by
  refine ⟨fun h => h.direct m (by simp [direct]), fun hm => ⟨?_, ?_⟩⟩
  · simpa [direct] using hm
  · simp [inside]

theorem everyOpened_inside (direct : T.direct t = []) (inside : T.inside t = [part]) :
    T.EveryOpened P t ↔ T.Every P part := by
  refine ⟨fun h => h.inside part (by simp [inside]), fun hpart => ⟨?_, ?_⟩⟩
  · simp [direct]
  · simpa [inside] using hpart

theorem everyOpened_both (direct : T.direct t = [m]) (inside : T.inside t = [part]) :
    T.EveryOpened P t ↔ P m ∧ T.Every P part := by
  refine ⟨fun h => ⟨h.direct m (by simp [direct]), h.inside part (by simp [inside])⟩,
    fun h => ⟨?_, ?_⟩⟩
  · simpa [direct] using h.1
  · simpa [inside] using h.2

end

/-- A compiler that follows the translation to some depth: the instantiations of the roots
become what they are translated to. -/
structure Follows (T : Translation) (z : Pass) (roots : List TypeRef) (depth : Nat)
    (c : Compiler) : Prop where
  resolve {element : Option Element} (quiet : SaysNothing element) (t : TypeRef) :
    Ensures (T.upTo z roots) (T.Every (T.Instantiation roots) t) (c.resolve element t T.scope)
      fun found => T.ofDepth depth t = some found ∧ T.Every (T.Named z) t
  define {element : Option Element} (quiet : SaysNothing element) {t : TypeRef} {d : Decl}
    (declared : T.env.types.declOf? t = some d) :
    Ensures (T.upTo z roots) (T.Instantiation roots t) (c.define element t T.scope)
      fun found => T.mention t = some found ∧ T.Named z t

namespace Follows

/-! ### Occurrences -/

theorem argument (hc : T.Follows z roots depth c) (arg : TypeRef) :
    Ensures (T.upTo z roots) (T.Every (T.Instantiation roots) arg) (c.argument T.env arg T.scope)
      fun found => T.argument (T.ofDepth depth) arg = some found ∧ T.Every (T.Named z) arg := by
  have schema : Ensures (T.upTo z roots) (T.Every (T.Instantiation roots) arg)
      (c.schema? arg T.scope) fun found => ∃ r, T.ofDepth depth arg = some r ∧
        found = r.map Resolved.outer ∧ T.Every (T.Named z) arg :=
    (hc.resolve saysNothing_none arg).bind fun r =>
      .pure fun ⟨_, hr, named⟩ => ⟨r, hr, rfl, named⟩
  refine schema.bind fun found => .pure fun ⟨_, r, hr, hfound, named⟩ => ⟨?_, named⟩
  rw [hfound, Translation.argument, hr, Option.map_some, Option.map_map]
  rfl

theorem items (hc : T.Follows z roots depth c) (item : TypeRef) :
    Ensures (T.upTo z roots) (T.Every (T.Instantiation roots) item)
      (c.argument T.env item T.scope >>= fun found => pure (found.map Schema.array))
      fun found => T.items (T.ofDepth depth) item = some found ∧ T.Every (T.Named z) item := by
  refine (hc.argument item).bind fun found => .pure fun ⟨_, hfound, named⟩ => ⟨?_, named⟩
  rw [Translation.items, hfound, Option.map_some]

theorem unrolledMap (hc : T.Follows z roots depth c) (d : Decl) {key : TypeRef} {d' : Decl}
    (declared : T.env.types.declOf? key = some d') (value : TypeRef) :
    Ensures (T.upTo z roots)
      (T.Instantiation roots key ∧ T.Every (T.Instantiation roots) value)
      (c.unrolledMap T.env d key value T.scope)
      fun s => T.unrolledMap (T.ofDepth depth) d key value = some s ∧ T.Named z key ∧
        T.Every (T.Named z) value := by
  apply ((hc.define saysNothing_none declared).under fun h => h.1).bind
  intro reference
  apply ((hc.argument value).under fun h => h.1.2).bind
  intro found
  refine (Ensures.noting _).bind fun keys => .pure ?_
  rintro ⟨⟨⟨_, hkey, named⟩, hvalue, all⟩, hkeys⟩
  refine ⟨?_, named, all⟩
  simp only [Translation.unrolledMap, hkey, hvalue, hkeys]
  rfl

theorem uniformMap (hc : T.Follows z roots depth c) (value : TypeRef) :
    Ensures (T.upTo z roots)
      (Compiler.admitsAll T.env.types value = false → T.Every (T.Instantiation roots) value)
      (c.uniformMap T.env value T.scope)
      fun s => T.uniformMap (T.ofDepth depth) value = some s ∧
        (Compiler.admitsAll T.env.types value = false → T.Every (T.Named z) value) := by
  unfold Compiler.uniformMap Translation.uniformMap
  split
  · rename_i hall
    refine .pure fun _ => ⟨rfl, fun hnot => ?_⟩
    rw [hall] at hnot
    cases hnot
  · rename_i hnot
    apply ((hc.argument value).under fun h => h (Bool.eq_false_iff.mpr hnot)).bind
    intro found
    cases found with
    | none => exact .pure fun ⟨_, hvalue, named⟩ => ⟨by rw [hvalue]; rfl, fun _ => named⟩
    | some s => exact .pure fun ⟨_, hvalue, named⟩ => ⟨by rw [hvalue]; rfl, fun _ => named⟩

theorem arrayOf (hc : T.Follows z roots depth c) {t element : TypeRef}
    (hkind : T.env.types.kindOf t = .array element) :
    Ensures (T.upTo z roots) (T.EveryOpened (T.Instantiation roots) t)
      (c.arrayOf T.env element T.scope)
      fun found => T.arrayOf (T.ofDepth depth) element = some found ∧
        T.EveryOpened (T.Named z) t := by
  have direct : T.direct t = [] := by simp only [Translation.direct, hkind]
  unfold Compiler.arrayOf Translation.arrayOf
  split
  · rename_i hbyte
    have inside : T.inside t = [] := by simp only [Translation.inside, hkind, if_pos hbyte]
    exact .pure fun _ => ⟨rfl, everyOpened_nil direct inside⟩
  · rename_i hbyte
    have inside : T.inside t = [element] := by
      simp only [Translation.inside, hkind, if_neg hbyte]
    exact (hc.items element).weaken (everyOpened_inside direct inside).mp
      fun found _ h => ⟨h.1, (everyOpened_inside direct inside).mpr h.2⟩

/-- A declared type that is not written out is mentioned. -/
theorem mentioned (hc : T.Follows z roots depth c) {element : Option Element}
    (quiet : SaysNothing element) {t : TypeRef} {d : Decl}
    (declared : T.env.types.declOf? t = some d) (direct : T.direct t = [t])
    (inside : T.inside t = []) :
    Ensures (T.upTo z roots) (T.EveryOpened (T.Instantiation roots) t)
      (c.define element t T.scope)
      fun found => T.mention t = some found ∧ T.EveryOpened (T.Named z) t :=
  (hc.define quiet declared).weaken (everyOpened_direct direct inside).mp
    fun _ _ h => ⟨h.1, (everyOpened_direct direct inside).mpr h.2⟩

theorem collection (hc : T.Follows z roots depth c) {element : Option Element}
    (quiet : SaysNothing element) {t : TypeRef} {d : Decl}
    (hkind : T.env.types.kindOf t = .iterable d) :
    Ensures (T.upTo z roots) (T.EveryOpened (T.Instantiation roots) t)
      (c.collection T.env element d t T.scope)
      fun found => T.collection (T.ofDepth depth) d t = some found ∧
        T.EveryOpened (T.Named z) t := by
  unfold Compiler.collection Translation.collection
  split
  · rename_i hproperties
    refine hc.mentioned quiet (Universe.declOf?_of_kindOf (by rw [hkind]; rfl)) ?_ ?_
    · simp only [Translation.direct, hkind, if_pos hproperties]
    · simp only [Translation.inside, hkind, if_pos hproperties]
  · rename_i hproperties
    have direct : T.direct t = [] := by
      simp only [Translation.direct, hkind, if_neg hproperties]
    have inside : T.inside t = (T.env.types.bindings t).values.take 1 := by
      simp only [Translation.inside, hkind, if_neg hproperties]
    cases hvalues : (T.env.types.bindings t).values with
    | nil => exact .pure fun _ => ⟨rfl, everyOpened_nil direct (by rw [inside, hvalues]; rfl)⟩
    | cons item rest =>
      have inside : T.inside t = [item] := by rw [inside, hvalues]; rfl
      exact (hc.items item).weaken (everyOpened_inside direct inside).mp
        fun found _ h => ⟨h.1, (everyOpened_inside direct inside).mpr h.2⟩

theorem uniform_of_isEnum {env : Environment} {key : TypeRef} (h : env.types.isEnum key = false)
    (rest : List TypeRef) (scope : Scope) :
    c.map env (key :: rest) scope = c.uniformMap env (rest.head?.getD .object) scope := by
  unfold Universe.isEnum at h
  simp only [Compiler.map]
  generalize env.types.kindOf key = kind at h ⊢
  cases kind with
  | enum d => cases h
  | _ => rfl

theorem map_uniform_of_isEnum {inner : Inner} {key : TypeRef}
    (h : T.env.types.isEnum key = false) (rest : List TypeRef) :
    T.map inner (key :: rest) = T.uniformMap inner (rest.head?.getD .object) := by
  unfold Universe.isEnum at h
  simp only [Translation.map]
  generalize T.env.types.kindOf key = kind at h ⊢
  cases kind with
  | enum d => cases h
  | _ => rfl

theorem exists_of_isEnum {u : Universe} {key : TypeRef} (h : u.isEnum key = true) :
    ∃ d, u.kindOf key = .enum d := by
  unfold Universe.isEnum at h
  split at h
  · rename_i d hkind
    exact ⟨d, hkind⟩
  · cases h

theorem map (hc : T.Follows z roots depth c) {t : TypeRef} {d : Decl}
    (hkind : T.env.types.kindOf t = .map d) :
    Ensures (T.upTo z roots) (T.EveryOpened (T.Instantiation roots) t)
      (c.map T.env t.args T.scope)
      fun s => T.map (T.ofDepth depth) t.args = some s ∧ T.EveryOpened (T.Named z) t := by
  have direct : T.direct t = (t.args.head?.filter T.env.types.isEnum).toList := by
    simp only [Translation.direct, hkind]
  have inside : T.inside t = T.mapValue t.args := by simp only [Translation.inside, hkind]
  cases hargs : t.args with
  | nil =>
    rw [hargs] at direct inside
    exact .pure fun _ => ⟨rfl, everyOpened_nil direct inside⟩
  | cons key rest =>
    rw [hargs] at direct inside
    cases henum : T.env.types.isEnum key with
    | true =>
      obtain ⟨dk, hdk⟩ := exists_of_isEnum henum
      have declared : T.env.types.declOf? key = some dk :=
        Universe.declOf?_of_kindOf (by rw [hdk]; rfl)
      have direct : T.direct t = [key] := by simp [direct, henum]
      have inside : T.inside t = [rest.head?.getD .object] := by simp [inside, mapValue, henum]
      simp only [Compiler.map, Translation.map, hdk]
      exact (hc.unrolledMap dk declared _).weaken (everyOpened_both direct inside).mp
        fun s _ h => ⟨h.1, (everyOpened_both direct inside).mpr h.2⟩
    | false =>
      have direct : T.direct t = [] := by simp [direct, henum]
      rw [uniform_of_isEnum henum, map_uniform_of_isEnum henum]
      cases hall : Compiler.admitsAll T.env.types (rest.head?.getD .object) with
      | true =>
        have inside : T.inside t = [] := by simp [inside, mapValue, henum, hall]
        refine (hc.uniformMap _).weaken (fun _ hnot => ?_)
          fun s _ h => ⟨h.1, everyOpened_nil direct inside⟩
        rw [hall] at hnot
        cases hnot
      | false =>
        have inside : T.inside t = [rest.head?.getD .object] := by
          simp [inside, mapValue, henum, hall]
        exact (hc.uniformMap _).weaken (fun h _ => (everyOpened_inside direct inside).mp h)
          fun s _ h => ⟨h.1, (everyOpened_inside direct inside).mpr (h.2 hall)⟩

theorem opened (hc : T.Follows z roots depth c) {element : Option Element}
    (quiet : SaysNothing element) (subject : String) (t : TypeRef) :
    Ensures (T.upTo z roots) (T.EveryOpened (T.Instantiation roots) t)
      (c.opened T.env subject element t T.scope)
      fun found => T.opened (T.ofDepth depth) t = some found ∧ T.EveryOpened (T.Named z) t := by
  unfold Compiler.opened Translation.opened
  cases hkind : T.env.types.kindOf t with
  | array item => exact hc.arrayOf hkind
  | primitive p =>
    refine .pure fun _ => ⟨rfl, everyOpened_nil ?_ ?_⟩
    · simp only [Translation.direct, hkind]
    · simp only [Translation.inside, hkind]
  | map d =>
    refine (hc.map hkind).bind fun s => .pure fun ⟨_, hs, named⟩ => ⟨?_, named⟩
    simp only [hs, Option.map_some]
  | iterable d => exact hc.collection quiet hkind
  | enum d =>
    refine hc.mentioned quiet (Universe.declOf?_of_kindOf (by rw [hkind]; rfl)) ?_ ?_
    · simp only [Translation.direct, hkind]
    · simp only [Translation.inside, hkind]
  | record d =>
    refine hc.mentioned quiet (Universe.declOf?_of_kindOf (by rw [hkind]; rfl)) ?_ ?_
    · simp only [Translation.direct, hkind]
    · simp only [Translation.inside, hkind]
  | interface d =>
    refine hc.mentioned quiet (Universe.declOf?_of_kindOf (by rw [hkind]; rfl)) ?_ ?_
    · simp only [Translation.direct, hkind]
    · simp only [Translation.inside, hkind]
  | _ =>
    refine (Ensures.report _).bind fun _ => .pure fun _ => ⟨rfl, everyOpened_nil ?_ ?_⟩
    · simp only [Translation.direct, hkind]
    · simp only [Translation.inside, hkind]

theorem occurrence (hc : T.Follows z roots depth c) {element : Option Element}
    (quiet : SaysNothing element) (t : TypeRef) :
    Ensures (T.upTo z roots) (T.Every (T.Instantiation roots) t)
      (c.occurrence T.env element t T.scope)
      fun found => T.ofDepth (depth + 1) t = some found ∧ T.Every (T.Named z) t := by
  have content : (openOccurrence T.env element t).1 = T.content t :=
    openOccurrence_of_saysNothing quiet t
  have noted : Ensures (T.upTo z roots) (T.Every (T.Instantiation roots) t)
      (Pass.noting (openOccurrence T.env element t)) fun found => found = T.content t :=
    (Ensures.noting _).weaken id fun _ _ h => h.trans content
  apply noted.bind
  intro found
  refine ((hc.opened quiet _ found.type).under fun h => ?_).bind fun s => .pure fun h => ?_
  · rw [h.2]
    exact every_iff.mp h.1
  · obtain ⟨⟨_, hfound⟩, hopened, named⟩ := h
    rw [hfound] at hopened named ⊢
    refine ⟨?_, every_iff.mpr named⟩
    simp only [Translation.ofDepth, Translation.occurrence, hopened, Option.map_some,
      describedBy_of_saysNothing quiet]

/-! ### Definitions -/

theorem addProperty {owner : Decl} (bare : owner.isBare = true) {m : Member}
    (hm : m ∈ owner.members) (s : Schema) (t : TypeRef) (r : Resolved) :
    Ensures (T.upTo z roots) pre (c.addProperty T.env owner s m t r) fun s' => s' =
      s.addProperty m.name (r.schema.nullableIf (m.includesNull r.nullable && !m.excludesNull))
        (m.isRequired owner r.nullable) := by
  have quiet : (Element.ofMember owner m).Bare := Element.bare_ofMember bare hm
  simp only [Compiler.addProperty, Member.unwrapping?_of_bare bare hm,
    Member.propertyName_of_bare bare hm]
  apply (ensures_bind quiet t r.schema _).bind
  intro bound
  refine (Ensures.noting _).bind fun name => .pure ?_
  rintro ⟨⟨_, hbound⟩, hname⟩
  rw [hname, hbound]

theorem addMember (hc : T.Follows z roots depth c) {owner : Decl} (bare : owner.isBare = true)
    {m : Member} (hm : m ∈ owner.members) (bindings : Bindings) (s : Schema) :
    Ensures (T.upTo z roots)
      (m.isVisible T.env owner none = true →
        T.Every (T.Instantiation roots) (m.type.substitute bindings))
      (c.addMember T.env owner bindings T.scope s m)
      fun s' => T.addMember (T.ofDepth depth) owner bindings s m = some s' ∧
        (m.isVisible T.env owner none = true →
          T.Every (T.Named z) (m.type.substitute bindings)) := by
  have quiet : SaysNothing (some (Element.ofMember owner m)) :=
    fun e he => Option.some.inj he ▸ Element.bare_ofMember bare hm
  unfold Compiler.addMember Translation.addMember
  change Ensures _ _ (if m.isVisible T.env owner none then _ else _) _
  cases visible : m.isVisible T.env owner none with
  | false => exact .pure fun _ => ⟨rfl, fun h => by cases h⟩
  | true =>
    apply ((hc.resolve quiet _).under fun h => h rfl).bind
    intro found
    cases found with
    | none => exact .pure fun ⟨_, hfound, named⟩ => ⟨by rw [hfound]; rfl, fun _ => named⟩
    | some r =>
      refine (addProperty bare hm s _ r).weaken id fun s' ⟨_, hfound, named⟩ hs' =>
        ⟨?_, fun _ => named⟩
      rw [hfound, hs']
      rfl

theorem addAncestor (hc : T.Follows z roots depth c) {t : TypeRef} {d : Decl}
    (declared : T.env.types.declOf? t = some d) (s : Schema) :
    Ensures (T.upTo z roots) (T.Instantiation roots t) (c.addAncestor T.scope s t)
      fun s' => T.addAncestor s t = some s' ∧ T.Named z t := by
  unfold Compiler.addAncestor Translation.addAncestor
  apply (hc.define saysNothing_none declared).bind
  intro found
  cases found with
  | none => exact .pure fun ⟨_, hfound, named⟩ => ⟨by rw [hfound]; rfl, named⟩
  | some reference => exact .pure fun ⟨_, hfound, named⟩ => ⟨by rw [hfound]; rfl, named⟩

theorem recordStart (hc : T.Follows z roots depth c) (d : Decl) (bindings : Bindings) :
    Ensures (T.upTo z roots) (∀ t ∈ T.ancestors d bindings, T.Instantiation roots t)
      (c.recordStart T.env d bindings T.scope)
      fun s => T.recordStart d bindings = some s ∧ ∀ t ∈ T.ancestors d bindings, T.Named z t := by
  unfold Compiler.recordStart Translation.recordStart Translation.ancestors
  split
  · exact .pure fun _ => ⟨rfl, fun _ ht => by cases ht⟩
  · refine Ensures.foldlM_option (fun s t ht => ?_) _
    obtain ⟨d, declared⟩ := Universe.declOf?_of_mem_lineageFrom ht
    exact hc.addAncestor declared s

theorem recordSchema (hc : T.Follows z roots depth c) {d : Decl} (bare : d.isBare = true)
    (record : d.kind ≠ .enum) (t : TypeRef) :
    Ensures (T.upTo z roots)
      (∀ m, T.DefinitionMentions d (T.env.types.bindings t) m → T.Instantiation roots m)
      (c.recordSchema T.env d t T.scope)
      fun s => T.recordSchema (T.ofDepth depth) d (T.env.types.bindings t) = some s ∧
        ∀ m, T.DefinitionMentions d (T.env.types.bindings t) m → T.Named z m := by
  have visible {m : Member} (hm : m ∈ d.members) (h : m.isVisible T.env d none = true) :
      m.type.substitute (T.env.types.bindings t) ∈
        T.memberTypes d (T.env.types.bindings t) :=
    List.mem_map.mpr ⟨m, List.mem_filter.mpr ⟨hm, h⟩, rfl⟩
  apply ((hc.recordStart d _).under fun h m hm => h m ⟨record, .inr hm⟩).bind
  intro start
  have members := Ensures.foldlM_option
    (fun s m hm => hc.addMember bare (m := m) hm (T.env.types.bindings t) s) start
  refine (members.under fun h m hm hv m' hm' =>
    h.1 m' ⟨record, .inl ⟨_, visible hm hv, hm'⟩⟩).bind fun s => .pure ?_
  rintro ⟨⟨_, hstart, ancestorsNamed⟩, hmembers, membersNamed⟩
  constructor
  · rw [Translation.recordSchema, hstart, Option.bind_eq_bind, Option.bind_some, hmembers]
    rfl
  · rintro m ⟨-, ⟨type, htype, hm⟩ | hm⟩
    · obtain ⟨member, hmember, rfl⟩ := List.mem_map.mp htype
      obtain ⟨own, hv⟩ := List.mem_filter.mp hmember
      exact membersNamed member own hv m hm
    · exact ancestorsNamed m hm

theorem build (hc : T.Follows z roots depth c) {d : Decl} (bare : d.isBare = true) (t : TypeRef) :
    Ensures (T.upTo z roots)
      (∀ m, T.DefinitionMentions d (T.env.types.bindings t) m → T.Instantiation roots m)
      (c.build T.env d t T.scope)
      fun s => T.definition (T.ofDepth depth) d (T.env.types.bindings t) = some s ∧
        ∀ m, T.DefinitionMentions d (T.env.types.bindings t) m → T.Named z m := by
  simp only [Compiler.build, Compiler.overlayOwn_of_bare bare, bind_pure]
  unfold Compiler.declaredSchema Translation.definition
  split
  · rename_i enum
    refine (Ensures.noting _).weaken id fun s _ hs => ⟨by rw [hs], ?_⟩
    rintro m ⟨record, -⟩
    exact absurd enum record
  · rename_i record
    exact hc.recordSchema bare record t

end Follows

/-- A name that was computed before the end is the one that is known then. -/
theorem nameOf?_of_compute {element : Option Element} (quiet : SaysNothing element) {t : TypeRef}
    {d : Decl} (declared : T.env.types.declOf? t = some d) {p : Pass} {names : NameTable}
    {name : String} (named : p.names.compute T.env.config T.env.types
      (d.nameRequest element t T.scope) = some (.ok (name, names)))
    (before : ∀ key name, names.assigned.get? key = some name →
      z.names.assigned.get? key = some name) : z.nameOf? T.env t = some name := by
  obtain ⟨key, hkey, assigned⟩ := NameTable.given_of_compute named
  rw [nameRequest_of_saysNothing quiet] at hkey
  have hkey : (d.nameRequest none t {}).candidate T.env.config T.env.types = some key := hkey
  simp only [Pass.nameOf?, Option.bind_eq_bind, declared, Option.bind_some, hkey]
  exact before key name assigned

/-- A definition that is registered is that of an instantiation, and the reference to it is a
mention. -/
theorem Follows.defined (hc : T.Follows z roots depth c)
    (names : ∀ t, T.name? t = z.nameOf? T.env t) (bare : T.env.types.isBare = true)
    {element : Option Element} (quiet : SaysNothing element)
    {t : TypeRef} {d : Decl} (declared : T.env.types.declOf? t = some d) :
    Ensures (T.upTo z roots) (T.Instantiation roots t) (c.defined T.env element t T.scope)
      fun found => T.mention t = some found ∧ T.Named z t := by
  have mention {name : String} (h : T.name? t = some name) :
      T.mention t = some (some (.reference name)) := by
    simp only [Translation.mention, declared, h, Option.map_some]
  have frame := frame_grows T.env
  intro p found q h
  cases Compiler.defines_of_yields h with
  | undeclared unknown => exact absurd (unknown.symm.trans declared) (by simp)
  | known declared' named known =>
    rename_i d' name table
    have same : d' = d := Option.some.inj (declared'.symm.trans declared)
    subst same
    refine ⟨frame.assign named, fun _ before sound => ⟨sound, ?_⟩⟩
    have given : T.name? t = some name :=
      (names t).trans (nameOf?_of_compute quiet declared named before.1)
    exact ⟨mention given, name, given, before.2 name known⟩
  | built declared' named new built =>
    rename_i d' name table s q'
    have same : d' = d := Option.some.inj (declared'.symm.trans declared)
    subst same
    have bareDecl : d'.isBare = true := Universe.bare_decl bare declared
    have documented : d'.documented s = s := Decl.documented_of_bare bareDecl s
    obtain ⟨grows, promise⟩ := hc.build bareDecl t _ s q' built
    refine ⟨frame.trans (frame.assign named) (frame.register (d'.documented s) new grows),
      fun inst before sound => ?_⟩
    have atEnd : (T.upTo z roots).before q' := (T.upTo z roots).unfinished before
    have given : T.name? t = some name := (names t).trans
      (nameOf?_of_compute quiet declared named fun key name' hkey =>
        atEnd.1 key name' (grows.assigned hkey))
    have start : (T.upTo z roots).sound (startName name (p.withNames table)) :=
      (T.upTo z roots).unchanged (schemas_startName name _) sound
    obtain ⟨sound', hs, mentioned⟩ := promise (fun m hm => .nested inst declared hm) atEnd start
    have reference : d'.definedReference name (d'.documented s) = .reference name := by
      rw [documented, Decl.definedReference_of_labels _ _ (labels_definition hs)]
    refine ⟨fun entry hentry => ?_, ?_, name, given, ?_⟩
    · rcases mem_schemas_withSchema hentry with old | rfl
      · exact sound' entry old
      · exact ⟨t, d', s, inst, declared, given, defines_of_definition declared hs,
          by rw [documented], mentioned⟩
    · rw [reference]
      exact mention given
    · exact before.2 name (isKnown_withSchema_self _ _ _)

/-- A compiler of any depth follows the translation to that depth. -/
theorem follows_ofDepth (names : ∀ t, T.name? t = z.nameOf? T.env t)
    (bare : T.env.types.isBare = true) (depth : Nat) :
    T.Follows z roots depth (Compiler.ofDepth T.env depth) := by
  induction depth with
  | zero => exact ⟨fun _ _ => .throw, fun _ _ _ _ => .throw⟩
  | succ depth ih =>
    exact ⟨fun quiet t => ih.occurrence quiet t,
      fun quiet _ _ declared => ih.defined names bare quiet declared⟩

end Translation

end Schemata
