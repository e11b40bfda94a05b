import Schemata.Proofs.Schema.Alike

/-!
# Translation without state

What the schemas of a universe without directives and documentation are, read off its
declarations: there is no registry, no name is in progress, and every mention of a declared
type is a reference to the name that it is given.  A translation gives nothing for a type that
is nested beyond its depth, and nothing for a mention without a name.
-/
namespace Schemata

/-- What a translation depends on: the names of declared types are given from outside. -/
structure Translation where
  env : Environment
  mediaTypes : List String
  name? : TypeRef → Option String

namespace Translation

variable (T : Translation)

def scope : Scope := { mediaTypes := T.mediaTypes }

/-- The schemas of occurrences to a lesser depth; none is not the same as no schema. -/
abbrev Inner := TypeRef → Option (Option Resolved)

/-- A reference to the name of a declared type. -/
def mention (t : TypeRef) : Option (Option Schema) :=
  match T.env.types.declOf? t with
  | none => some none
  | some _ => (T.name? t).map fun name => some (.reference name)

def argument (inner : Inner) (arg : TypeRef) : Option (Option Schema) :=
  (inner arg).map fun found => found.map fun r => Compiler.withUse T.env.types arg r.outer

/-- One property for each constant of the key. -/
def unrolledMap (inner : Inner) (d : Decl) (key value : TypeRef) : Option Schema := do
  let _ ← T.mention key
  let found ← T.argument inner value
  let keys := (d.enumValues (some .string) none).1.getD []
  pure
    { Schema.object with
      properties :=
        Assoc.ofList (keys.map fun key => (Mangle.rendered key, found.getD .object)) }

def uniformMap (inner : Inner) (value : TypeRef) : Option Schema :=
  if Compiler.admitsAll T.env.types value then
    some { Schema.object with additional := some (.allowed true) }
  else
    (T.argument inner value).map fun
      | some s => { Schema.object with additional := some (.schema s) }
      | none => { Schema.object with additional := some (.allowed true) }

def map (inner : Inner) : List TypeRef → Option Schema
  | [] => some { Schema.object with additional := some (.allowed true) }
  | key :: rest =>
    match T.env.types.kindOf key with
    | .enum d => T.unrolledMap inner d key (rest.head?.getD .object)
    | _ => T.uniformMap inner (rest.head?.getD .object)

def items (inner : Inner) (item : TypeRef) : Option (Option Schema) :=
  (T.argument inner item).map fun found => found.map Schema.array

def arrayOf (inner : Inner) (element : TypeRef) : Option (Option Schema) :=
  if T.env.types.primitiveOf? element = some .byte then
    some (some ((Schema.typed .string).withFormat "byte"))
  else T.items inner element

def collection (inner : Inner) (d : Decl) (t : TypeRef) : Option (Option Schema) :=
  if T.env.types.hasProperties d then T.mention t
  else
    match (T.env.types.bindings t).values with
    | [] => some (some (Schema.array .object))
    | item :: _ => T.items inner item

/-- The schema of an occurrence that has been opened. -/
def opened (inner : Inner) (t : TypeRef) : Option (Option Schema) :=
  match T.env.types.kindOf t with
  | .array element => T.arrayOf inner element
  | .primitive p => some (some (p.schema.used .value t.directives))
  | .map _ => (T.map inner t.args).map some
  | .iterable d => T.collection inner d t
  | .enum _ => T.mention t
  | .record _ => T.mention t
  | .interface _ => T.mention t
  | _ => some none

/-- What an occurrence is opened to. -/
def content (t : TypeRef) : Opened := (openOccurrence T.env none t).1

def occurrence (inner : Inner) (t : TypeRef) : Option (Option Resolved) :=
  (T.opened inner (T.content t).type).map fun found => found.map fun s =>
    ⟨Compiler.streamed T.env.config T.scope (T.content t).isStream s, (T.content t).nullable⟩

/-- The schema of an occurrence that is nested no deeper than this. -/
def ofDepth : Nat → Inner
  | 0, _ => none
  | depth + 1, t => T.occurrence (ofDepth depth) t

/-- Adds the property of a member. -/
def addMember (inner : Inner) (owner : Decl) (bindings : Bindings) (s : Schema) (m : Member) :
    Option Schema :=
  if m.isVisible T.env owner none then
    (inner (m.type.substitute bindings)).map fun
      | none => s
      | some r =>
        s.addProperty m.name (r.schema.nullableIf (m.includesNull r.nullable && !m.excludesNull))
          (m.isRequired owner r.nullable)
  else some s

def addAncestor (s : Schema) (t : TypeRef) : Option Schema :=
  (T.mention t).map fun
    | some reference => s.addAllOf reference
    | none => s

/-- An object, or a composition of references to the ancestors. -/
def recordStart (d : Decl) (bindings : Bindings) : Option Schema :=
  if (T.env.types.composedParents d).isEmpty then some .object
  else (T.env.types.lineage d bindings).foldlM T.addAncestor {}

def recordSchema (inner : Inner) (d : Decl) (bindings : Bindings) : Option Schema := do
  let start ← T.recordStart d bindings
  let s ← d.members.foldlM (T.addMember inner d bindings) start
  pure s.settled

/-- The schema of a declaration whose parameters stand for some types. -/
def definition (inner : Inner) (d : Decl) (bindings : Bindings) : Option Schema :=
  if d.kind = .enum then some (d.enumSchema T.env.types).1 else T.recordSchema inner d bindings

/-- The translation of an occurrence, the same at every depth that is enough for it. -/
def Translates (t : TypeRef) (found : Option Resolved) : Prop :=
  ∃ enough, ∀ depth, enough ≤ depth → T.ofDepth depth t = some found

/-- The translation of the declaration of a type, the same at every depth that is enough. -/
def Defines (t : TypeRef) (s : Schema) : Prop :=
  ∃ d enough, T.env.types.declOf? t = some d ∧ ∀ depth, enough ≤ depth →
    T.definition (T.ofDepth depth) d (T.env.types.bindings t) = some s

variable {T} {inner deeper : Inner}

/-! ### Labels -/

theorem labels_foldlM {f : Schema → α → Option Schema}
    (hf : ∀ s a s', f s a = some s' → s'.labels = s.labels) {xs : List α} {s s' : Schema}
    (h : xs.foldlM f s = some s') : s'.labels = s.labels := by
  induction xs generalizing s with
  | nil =>
    cases h
    rfl
  | cons x xs ih =>
    simp only [List.foldlM_cons, Option.bind_eq_bind, Option.bind_eq_some_iff] at h
    obtain ⟨next, hnext, hrest⟩ := h
    exact (ih hrest).trans (hf s x next hnext)

theorem labels_addMember {owner : Decl} {bindings : Bindings} {s s' : Schema} {m : Member}
    (h : T.addMember inner owner bindings s m = some s') : s'.labels = s.labels := by
  unfold addMember at h
  split at h
  · obtain ⟨found, -, rfl⟩ := Option.map_eq_some_iff.mp h
    cases found <;> rfl
  · cases h
    rfl

theorem labels_addAncestor {s s' : Schema} {t : TypeRef} (h : T.addAncestor s t = some s') :
    s'.labels = s.labels := by
  obtain ⟨found, -, rfl⟩ := Option.map_eq_some_iff.mp h
  cases found <;> rfl

theorem labels_recordStart {d : Decl} {bindings : Bindings} {s : Schema}
    (h : T.recordStart d bindings = some s) : s.labels = {} := by
  unfold recordStart at h
  split at h
  · cases h
    rfl
  · exact labels_foldlM (fun _ _ _ => labels_addAncestor) h

/-- What a definition says of its type is structure alone. -/
theorem labels_definition {d : Decl} {bindings : Bindings} {s : Schema}
    (h : T.definition inner d bindings = some s) : s.labels = {} := by
  unfold definition at h
  split at h
  · cases h
    rfl
  · simp only [recordSchema, Option.bind_eq_bind, Option.bind_eq_some_iff] at h
    obtain ⟨start, hstart, members, hmembers, hs⟩ := h
    cases hs
    rw [Schema.labels_settled, labels_foldlM (fun _ _ _ => labels_addMember) hmembers,
      labels_recordStart hstart]

/-! ### Depth -/

/-- What is translated to some depth is translated to the same at a greater one. -/
def Extends (inner deeper : Inner) : Prop := ∀ t found, inner t = some found → deeper t = some found

section

variable (h : Extends inner deeper)

include h

theorem argument_mono {arg : TypeRef} {found : Option Schema}
    (ha : T.argument inner arg = some found) : T.argument deeper arg = some found := by
  obtain ⟨r, hr, rfl⟩ := Option.map_eq_some_iff.mp ha
  exact Option.map_eq_some_iff.mpr ⟨r, h arg r hr, rfl⟩

theorem items_mono {item : TypeRef} {found : Option Schema}
    (ha : T.items inner item = some found) : T.items deeper item = some found := by
  obtain ⟨r, hr, rfl⟩ := Option.map_eq_some_iff.mp ha
  exact Option.map_eq_some_iff.mpr ⟨r, argument_mono h hr, rfl⟩

theorem unrolledMap_mono {d : Decl} {key value : TypeRef} {s : Schema}
    (ha : T.unrolledMap inner d key value = some s) :
    T.unrolledMap deeper d key value = some s := by
  simp only [unrolledMap, Option.bind_eq_bind, Option.bind_eq_some_iff] at ha ⊢
  obtain ⟨reference, hkey, found, hfound, hs⟩ := ha
  exact ⟨reference, hkey, found, argument_mono h hfound, hs⟩

theorem uniformMap_mono {value : TypeRef} {s : Schema}
    (ha : T.uniformMap inner value = some s) : T.uniformMap deeper value = some s := by
  unfold uniformMap at ha ⊢
  split at ha
  · rwa [if_pos ‹_›]
  · rw [if_neg ‹_›]
    obtain ⟨found, hfound, hs⟩ := Option.map_eq_some_iff.mp ha
    exact Option.map_eq_some_iff.mpr ⟨found, argument_mono h hfound, hs⟩

theorem map_mono {args : List TypeRef} {s : Schema} (ha : T.map inner args = some s) :
    T.map deeper args = some s := by
  cases args with
  | nil => exact ha
  | cons key rest =>
    simp only [Translation.map] at ha ⊢
    generalize T.env.types.kindOf key = kind at ha ⊢
    cases kind with
    | enum d => exact unrolledMap_mono h ha
    | _ => exact uniformMap_mono h ha

theorem arrayOf_mono {element : TypeRef} {found : Option Schema}
    (ha : T.arrayOf inner element = some found) : T.arrayOf deeper element = some found := by
  unfold arrayOf at ha ⊢
  split at ha
  · rwa [if_pos ‹_›]
  · rw [if_neg ‹_›]
    exact items_mono h ha

theorem collection_mono {d : Decl} {t : TypeRef} {found : Option Schema}
    (ha : T.collection inner d t = some found) : T.collection deeper d t = some found := by
  unfold collection at ha ⊢
  split at ha
  · rwa [if_pos ‹_›]
  · rw [if_neg ‹_›]
    generalize (T.env.types.bindings t).values = values at ha ⊢
    cases values with
    | nil => exact ha
    | cons item rest => exact items_mono h ha

theorem opened_mono {t : TypeRef} {found : Option Schema}
    (ha : T.opened inner t = some found) : T.opened deeper t = some found := by
  unfold Translation.opened at ha ⊢
  generalize T.env.types.kindOf t = kind at ha ⊢
  cases kind with
  | array element => exact arrayOf_mono h ha
  | map d =>
    obtain ⟨s, hs, rfl⟩ := Option.map_eq_some_iff.mp ha
    exact Option.map_eq_some_iff.mpr ⟨s, map_mono h hs, rfl⟩
  | iterable d => exact collection_mono h ha
  | _ => exact ha

theorem occurrence_mono {t : TypeRef} {found : Option Resolved}
    (ha : T.occurrence inner t = some found) : T.occurrence deeper t = some found := by
  obtain ⟨s, hs, rfl⟩ := Option.map_eq_some_iff.mp ha
  exact Option.map_eq_some_iff.mpr ⟨s, opened_mono h hs, rfl⟩

theorem addMember_mono {owner : Decl} {bindings : Bindings} {s s' : Schema} {m : Member}
    (ha : T.addMember inner owner bindings s m = some s') :
    T.addMember deeper owner bindings s m = some s' := by
  unfold addMember at ha ⊢
  split at ha
  · rw [if_pos ‹_›]
    obtain ⟨found, hfound, hs⟩ := Option.map_eq_some_iff.mp ha
    exact Option.map_eq_some_iff.mpr ⟨found, h _ found hfound, hs⟩
  · rwa [if_neg ‹_›]

theorem addMembers_mono {owner : Decl} {bindings : Bindings} {members : List Member}
    {s s' : Schema} (ha : members.foldlM (T.addMember inner owner bindings) s = some s') :
    members.foldlM (T.addMember deeper owner bindings) s = some s' := by
  induction members generalizing s with
  | nil => exact ha
  | cons m rest ih =>
    simp only [List.foldlM_cons, Option.bind_eq_bind, Option.bind_eq_some_iff] at ha ⊢
    obtain ⟨next, hnext, hrest⟩ := ha
    exact ⟨next, addMember_mono h hnext, ih hrest⟩

theorem definition_mono {d : Decl} {bindings : Bindings} {s : Schema}
    (ha : T.definition inner d bindings = some s) : T.definition deeper d bindings = some s := by
  unfold definition at ha ⊢
  split at ha
  · rwa [if_pos ‹_›]
  · rw [if_neg ‹_›]
    simp only [recordSchema, Option.bind_eq_bind, Option.bind_eq_some_iff] at ha ⊢
    obtain ⟨start, hstart, s', hmembers, hs⟩ := ha
    exact ⟨start, hstart, s', addMembers_mono h hmembers, hs⟩

end

theorem extends_ofDepth {depth depth' : Nat} (h : depth ≤ depth') :
    Extends (T.ofDepth depth) (T.ofDepth depth') := by
  induction depth generalizing depth' with
  | zero =>
    intro t found ha
    cases ha
  | succ depth ih =>
    obtain ⟨depth', rfl⟩ := Nat.exists_eq_add_of_lt h
    have hle : depth ≤ depth + depth' := Nat.le_add_right _ _
    intro t found ha
    exact occurrence_mono (ih hle) ha

theorem translates_of_ofDepth {depth : Nat} {t : TypeRef} {found : Option Resolved}
    (h : T.ofDepth depth t = some found) : T.Translates t found :=
  ⟨depth, fun _ hle => extends_ofDepth hle t found h⟩

theorem defines_of_definition {depth : Nat} {t : TypeRef} {d : Decl} {s : Schema}
    (declared : T.env.types.declOf? t = some d)
    (h : T.definition (T.ofDepth depth) d (T.env.types.bindings t) = some s) : T.Defines t s :=
  ⟨d, depth, declared, fun _ hle => definition_mono (extends_ofDepth hle) h⟩

/-- A type has one translation. -/
theorem Translates.unique {t : TypeRef} {found found' : Option Resolved}
    (h : T.Translates t found) (h' : T.Translates t found') : found = found' := by
  obtain ⟨enough, hfound⟩ := h
  obtain ⟨enough', hfound'⟩ := h'
  have first := hfound _ (Nat.le_max_left _ enough')
  have same := first.symm.trans (hfound' _ (Nat.le_max_right enough _))
  exact Option.some.inj same

/-- The definition of a type depends on its declaration and bindings alone. -/
theorem Defines.congr {t t' : TypeRef} {s : Schema} (h : T.Defines t s)
    (declared : T.env.types.declOf? t = T.env.types.declOf? t')
    (bindings : T.env.types.bindings t = T.env.types.bindings t') : T.Defines t' s := by
  obtain ⟨d, enough, hd, hs⟩ := h
  refine ⟨d, enough, declared.symm.trans hd, fun depth hle => ?_⟩
  rw [← bindings]
  exact hs depth hle

/-- A type has one definition. -/
theorem Defines.unique {t : TypeRef} {s s' : Schema} (h : T.Defines t s) (h' : T.Defines t s') :
    s = s' := by
  obtain ⟨d, enough, hd, hs⟩ := h
  obtain ⟨d', enough', hd', hs'⟩ := h'
  have sameDecl : d = d' := Option.some.inj (hd.symm.trans hd')
  subst sameDecl
  have first := hs _ (Nat.le_max_left _ enough')
  have same := first.symm.trans (hs' _ (Nat.le_max_right enough _))
  exact Option.some.inj same

end Translation

end Schemata
