import Schemata.Proofs.Pass.Calls
import Schemata.Proofs.Pass.Kindred
import Schemata.Proofs.Pass.Steps

/-!
# Pairs of steps

Two runs over kindred environments report, look at the registry and ask the compilers below them
at the same places.  A relation between steps that holds of these, and of steps that follow one
another, holds of all that is made of them.  The scopes of the two runs may differ as long as they
have the same view and carry the same streams.
-/
namespace Schemata

open Diagnostics

/-- A relation between the steps of two runs. -/
abbrev StepRelation := ∀ α : Type, PassM α → PassM α → Prop

/-- Two compilers make related steps of a call, in all related scopes. -/
def Call.Pairs (scopes : Scope → Scope → Prop) (T : StepRelation) (c c' : Compiler) :
    Call → Prop
  | .resolve element t scope => ∀ scope', scopes scope scope' →
      T _ (c.resolve element t scope) (c'.resolve element t scope')
  | .define element t scope => ∀ scope', scopes scope scope' →
      T _ (c.define element t scope) (c'.define element t scope')

/-- A relation that holds of steps that do nothing, that report alike, that look at one registry,
and that follow one another. -/
structure Pairing (like : Diagnostic → Diagnostic → Prop) (scopes : Scope → Scope → Prop)
    (T : StepRelation) : Prop where
  advised {d : Diagnostic} : d.IsAdvice → like d d
  detached : scopes {} {}
  view {scope scope' : Scope} : scopes scope scope' → scope'.view = scope.view
  pure {α : Type} (a : α) : T α (Pure.pure a) (Pure.pure a)
  report {ds ds' : Diagnostics} : List.Forall₂ like ds ds' →
    T Unit (Pass.report ds) (Pass.report ds')
  look {α : Type} {f f' : Pass → PassM α} :
    (∀ p p', p'.registry = p.registry → T α (f p) (f' p')) →
      T α (MonadState.get >>= f) (MonadState.get >>= f')
  bind {α β : Type} {m m' : PassM α} {f f' : α → PassM β} :
    T α m m' → (∀ a, T β (f a) (f' a)) → T β (m >>= f) (m' >>= f')

namespace Pairing

variable {like : Diagnostic → Diagnostic → Prop} {scopes : Scope → Scope → Prop}
  {T : StepRelation} (h : Pairing like scopes T)

include h

theorem advice {ds : Diagnostics} (advice : AreAdvice ds) :
    T Unit (Pass.report ds) (Pass.report ds) :=
  h.report (List.forall₂_same.mpr fun d hd => h.advised (advice d hd))

theorem noting {α : Type} {found found' : α × Diagnostics} (same : found'.1 = found.1)
    (alike : List.Forall₂ like found.2 found'.2) :
    T α (Pass.noting found) (Pass.noting found') := by
  unfold Pass.noting
  rw [same]
  exact h.bind (h.report alike) fun _ => h.pure _

theorem notingAdvice {α : Type} {found : α × Diagnostics} (advice : AreAdvice found.2) :
    T α (Pass.noting found) (Pass.noting found) :=
  h.noting rfl (List.forall₂_same.mpr fun d hd => h.advised (advice d hd))

theorem foldlM {α β : Type} {f f' : β → α → PassM β} {xs : List α}
    (hf : ∀ b, ∀ a ∈ xs, T β (f b a) (f' b a)) (b : β) :
    T β (xs.foldlM f b) (xs.foldlM f' b) := by
  induction xs generalizing b with
  | nil => exact h.pure b
  | cons x xs ih =>
    rw [List.foldlM_cons, List.foldlM_cons]
    exact h.bind (hf b x List.mem_cons_self) fun b' =>
      ih (fun b a ha => hf b a (List.mem_cons_of_mem _ ha)) b'

theorem mapM {α β : Type} {f f' : α → PassM β} {xs : List α}
    (hf : ∀ a ∈ xs, T β (f a) (f' a)) : T (List β) (xs.mapM f) (xs.mapM f') := by
  induction xs with
  | nil =>
    rw [List.mapM_nil, List.mapM_nil]
    exact h.pure []
  | cons x xs ih =>
    rw [List.mapM_cons, List.mapM_cons]
    exact h.bind (hf x List.mem_cons_self) fun _ =>
      h.bind (ih fun a ha => hf a (List.mem_cons_of_mem _ ha)) fun _ => h.pure _

/-! ### Named types -/

variable {c c' : Compiler} {env env' : Environment} {element : Option Element} {t : TypeRef}
  {scope scope' : Scope} {subject : String} {s : Schema} {d : Directive}

theorem schema? (hc : (Call.resolve none t scope).Pairs scopes T c c')
    (hs : scopes scope scope') : T _ (c.schema? t scope) (c'.schema? t scope') :=
  h.bind (hc scope' hs) fun _ => h.pure _

theorem named? {text : String} (hc : ∀ call ∈ Call.named [text], call.Pairs scopes T c c') :
    T _ (c.named? subject text) (c'.named? subject text) := by
  unfold Compiler.named?
  split
  · rename_i t ht
    refine h.schema? (hc _ ?_) h.detached
    simp [Call.named, TypeRef.parse?, ht, Except.toOption]
  · exact h.bind (h.advice (.single (isAdvice_invalidValue _ _))) fun _ => h.pure _

theorem allNamed {texts : List String}
    (hc : ∀ call ∈ Call.named texts, call.Pairs scopes T c c') :
    T _ (c.allNamed subject texts) (c'.allNamed subject texts) := by
  refine h.bind (h.mapM fun text htext => h.named? fun call hcall => ?_) fun _ => h.pure _
  exact hc call (Call.named_subset (by simpa using htext) hcall)

/-! ### Directives -/

theorem mappedSchemas {entries : List (String × Json)} (mapping : Assoc String String)
    (hc : ∀ call ∈ Call.named (entries.filterMap (Json.asStr? ·.2)), call.Pairs scopes T c c') :
    T _ (c.mappedSchemas subject entries mapping) (c'.mappedSchemas subject entries mapping) := by
  refine h.foldlM (fun mapping entry hentry => ?_) mapping
  cases htext : entry.2.asStr? with
  | none => exact h.pure _
  | some text =>
    have named : ∀ call ∈ Call.named [text], call.Pairs scopes T c c' := fun call hcall =>
      hc call (Call.named_subset (by simpa using ⟨_, _, hentry, htext⟩) hcall)
    refine h.bind (h.named? named) fun found => ?_
    split <;> exact h.pure _

theorem discriminator? (hc : ∀ call ∈
      Call.named (((d.section? "mappingSchemas").getD []).filterMap (Json.asStr? ·.2)),
      call.Pairs scopes T c c') :
    T _ (c.discriminator? subject d) (c'.discriminator? subject d) := by
  unfold Compiler.discriminator?
  split
  · exact h.bind (h.advice (.single (isAdvice_invalidValue _ _))) fun _ => h.pure _
  · exact h.bind (h.mappedSchemas _ hc) fun _ => h.pure _

theorem withDiscriminator
    (hc : ∀ call ∈ Call.named d.discriminatorNames, call.Pairs scopes T c c') :
    T _ (c.withDiscriminator s d subject) (c'.withDiscriminator s d subject) := by
  unfold Compiler.withDiscriminator
  split
  · exact h.pure _
  · rename_i inner hinner
    rw [Directive.discriminatorNames, hinner] at hc
    exact h.bind (h.discriminator? hc) fun _ => h.pure _

theorem withAdditional (hc : ∀ call ∈ Call.named d.additionalNames, call.Pairs scopes T c c') :
    T _ (c.withAdditional s d subject) (c'.withAdditional s d subject) := by
  unfold Compiler.withAdditional
  split
  · exact h.pure _
  · rename_i text htext
    rw [Directive.additionalNames, htext] at hc
    refine h.bind (h.named? hc) fun found => ?_
    split <;> exact h.pure _
  · exact h.pure _

theorem withNot (hc : ∀ call ∈ Call.named (d.text? "not").toList, call.Pairs scopes T c c') :
    T _ (c.withNot s d subject) (c'.withNot s d subject) := by
  unfold Compiler.withNot
  split
  · exact h.pure _
  · rename_i text htext
    rw [htext] at hc
    exact h.bind (h.named? hc) fun _ => h.pure _

theorem withAlternatives (hc : ∀ call ∈
      Call.named (d.texts "allOf" ++ d.texts "anyOf" ++ d.texts "oneOf"),
      call.Pairs scopes T c c') :
    T _ (c.withAlternatives s d subject) (c'.withAlternatives s d subject) := by
  have names {texts : List String}
      (sub : texts ⊆ d.texts "allOf" ++ d.texts "anyOf" ++ d.texts "oneOf") :
      T _ (c.allNamed subject texts) (c'.allNamed subject texts) :=
    h.allNamed fun call hcall => hc call (Call.named_subset sub hcall)
  exact h.bind (names (by simp)) fun _ => h.bind (names (by simp)) fun _ =>
    h.bind (names (by simp)) fun _ => h.pure _

variable (kin : env.Kin env')

include kin

theorem overlay (hc : ∀ call ∈ Call.named d.typeNames, call.Pairs scopes T c c') :
    T _ (c.overlay env s d element t) (c'.overlay env' s d element t) := by
  rw [Directive.typeNames, Call.named_append, Call.named_append, Call.named_append] at hc
  simp only [List.forall_mem_append] at hc
  obtain ⟨⟨⟨ofDiscriminator, ofAdditional⟩, ofNot⟩, ofAlternatives⟩ := hc
  refine h.bind (h.notingAdvice (Schema.advice_overlaid _ _ _ _)) fun s =>
    h.look fun p p' same => ?_
  rw [same, kin.withLiterals]
  refine h.bind (h.notingAdvice (Facets.advice_withLiterals _ _ _ _)) fun s => ?_
  exact h.bind (h.withDiscriminator ofDiscriminator) fun _ =>
    h.bind (h.withAdditional ofAdditional) fun _ =>
      h.bind (h.withNot ofNot) fun _ => h.withAlternatives ofAlternatives

theorem overlayItems (hc : ∀ call ∈ Call.named d.itemNames, call.Pairs scopes T c c') :
    T _ (c.overlayItems env s d t) (c'.overlayItems env' s d t) := by
  unfold Compiler.overlayItems
  rw [kin.types.itemType]
  split
  · rename_i text htext
    rw [Directive.itemNames, htext] at hc
    exact h.bind (h.named? hc) fun _ => h.pure _
  · rename_i htext
    rw [Directive.itemNames, htext] at hc
    split
    · exact h.pure _
    · exact h.bind (h.overlay kin hc) fun _ => h.pure _

theorem overlayArray (hc : ∀ call ∈ Call.named d.arrayTypeNames, call.Pairs scopes T c c') :
    T _ (c.overlayArray env s d t) (c'.overlayArray env' s d t) := by
  rw [Directive.arrayTypeNames, Call.named_append, List.forall_mem_append] at hc
  refine h.bind (h.overlay kin hc.1) fun s => ?_
  split
  · exact h.pure _
  · rename_i items hitems
    rw [hitems] at hc
    exact h.overlayItems kin hc.2

variable {e : Element}

theorem overlayAll {target : ConstraintTarget} {fallback : List Schema}
    (hc : ∀ call ∈ Call.named e.directives.typeNames, call.Pairs scopes T c c') :
    T _ (c.overlayAll env s e t target fallback) (c'.overlayAll env' s e t target fallback) := by
  rw [Directives.typeNames, Call.named_append, List.forall_mem_append] at hc
  have stated : T _ (c.overlayStated env s e t) (c'.overlayStated env' s e t) := by
    unfold Compiler.overlayStated
    split
    · rename_i d hd
      have hget : e.directives.get? .schema = some d := hd
      rw [hget] at hc
      exact h.overlay kin hc.1
    · exact h.pure _
  have array (s : Schema) :
      T _ (c.overlayStatedArray env s e t) (c'.overlayStatedArray env' s e t) := by
    unfold Compiler.overlayStatedArray
    split
    · rename_i d hd
      have hget : e.directives.get? .arraySchema = some d := hd
      rw [hget] at hc
      exact h.overlayArray kin hc.2
    · exact h.pure _
  refine h.bind stated fun _ => h.bind (array _) fun _ => h.look fun p p' same => ?_
  rw [same, kin.types.literalType]
  exact h.bind (h.notingAdvice (e.advice_default? _ _)) fun _ => h.pure _

theorem bindElement {derived : Schema} {nullable : Bool}
    (hc : ∀ call ∈ Call.named e.directives.typeNames, call.Pairs scopes T c c') :
    T _ (c.bind env e t derived nullable) (c'.bind env' e t derived nullable) := by
  refine h.look fun p p' same => ?_
  rw [same, kin.constraintTarget]
  split
  · exact h.bind (h.overlayAll kin hc) fun _ => h.pure _
  · exact h.bind (h.overlayAll kin hc) fun _ => h.pure _

/-! ### Occurrences and requests -/

theorem argument (hc : (Call.resolve none t scope).Pairs scopes T c c')
    (hs : scopes scope scope') : T _ (c.argument env t scope) (c'.argument env' t scope') := by
  unfold Compiler.argument
  rw [funext (kin.types.withUse t)]
  exact h.bind (h.schema? hc hs) fun _ => h.pure _

theorem unrolledMap {owner : Decl} {key value : TypeRef}
    (hkey : (Call.define none key scope).Pairs scopes T c c')
    (hvalue : (Call.resolve none value scope).Pairs scopes T c c') (hs : scopes scope scope') :
    T _ (c.unrolledMap env owner key value scope) (c'.unrolledMap env' owner key value scope') :=
  h.bind (hkey scope' hs) fun _ => h.bind (h.argument kin hvalue hs) fun _ =>
    h.bind (h.notingAdvice (owner.advice_enumValues _ _)) fun _ => h.pure _

theorem uniformMap {value : TypeRef} (hc : Compiler.admitsAll env.types value = false →
      (Call.resolve none value scope).Pairs scopes T c c') (hs : scopes scope scope') :
    T _ (c.uniformMap env value scope) (c'.uniformMap env' value scope') := by
  unfold Compiler.uniformMap
  rw [kin.types.admitsAll]
  split
  · exact h.pure _
  · rename_i said
    refine h.bind (h.argument kin (hc (by simpa using said)) hs) fun found => ?_
    split <;> exact h.pure _

theorem map {args : List TypeRef}
    (hc : ∀ call ∈ Call.ofMap env.types args scope, call.Pairs scopes T c c')
    (hs : scopes scope scope') : T _ (c.map env args scope) (c'.map env' args scope') := by
  cases args with
  | nil => exact h.pure _
  | cons key rest =>
    simp only [Compiler.map, Call.ofMap, kin.types.kindOf] at hc ⊢
    generalize env.types.kindOf key = kind at hc ⊢
    cases kind with
    | enum d => exact h.unrolledMap kin (hc _ (by simp)) (hc _ (by simp)) hs
    | _ => exact h.uniformMap kin (fun said => hc _ (by simp [said])) hs

theorem arrayOf (hc : env.types.primitiveOf? t ≠ some .byte →
      (Call.resolve none t scope).Pairs scopes T c c') (hs : scopes scope scope') :
    T _ (c.arrayOf env t scope) (c'.arrayOf env' t scope') := by
  unfold Compiler.arrayOf
  rw [kin.types.primitiveOf?]
  split
  · exact h.pure _
  · rename_i other
    exact h.bind (h.argument kin (hc other) hs) fun _ => h.pure _

theorem collection {owner : Decl}
    (hc : ∀ call ∈ (if env.types.hasProperties owner then [Call.define element t scope]
      else (env.types.bindings t).values.head?.toList.map fun item => .resolve none item scope),
        call.Pairs scopes T c c') (hs : scopes scope scope') :
    T _ (c.collection env element owner t scope) (c'.collection env' element owner t scope') := by
  unfold Compiler.collection
  rw [kin.types.hasProperties, kin.types.bindings]
  split
  · rename_i declared
    rw [if_pos declared] at hc
    exact hc _ List.mem_cons_self scope' hs
  · rename_i plain
    rw [if_neg plain] at hc
    split
    · exact h.pure _
    · rename_i item rest hvalues
      rw [hvalues] at hc
      exact h.bind (h.argument kin (hc _ List.mem_cons_self) hs) fun _ => h.pure _

theorem opened (hc : ∀ call ∈ Call.ofOpened env.types element t scope, call.Pairs scopes T c c')
    (hs : scopes scope scope')
    (missing : env.types.isRepresented t = false →
      like (.undeclared env.types subject t) (.undeclared env'.types subject t)) :
    T _ (c.opened env subject element t scope) (c'.opened env' subject element t scope') := by
  have unknown (nothing : env.types.isRepresented t = false) :
      T _ (Pass.report [.undeclared env.types subject t] >>= fun _ =>
          (Pure.pure none : PassM (Option Schema)))
        (Pass.report [.undeclared env'.types subject t] >>= fun _ =>
          (Pure.pure none : PassM (Option Schema))) :=
    h.bind (h.report (.cons (missing nothing) .nil)) fun _ => h.pure _
  unfold Compiler.opened
  unfold Call.ofOpened at hc
  unfold Universe.isRepresented at unknown
  rw [kin.types.kindOf]
  cases hkind : env.types.kindOf t with
  | array item =>
    simp only [hkind] at hc
    exact h.arrayOf kin (fun other => hc _ (by simp [other])) hs
  | primitive p => exact h.pure _
  | map owner =>
    simp only [hkind] at hc
    exact h.bind (h.map kin hc hs) fun _ => h.pure _
  | iterable owner =>
    simp only [hkind] at hc
    exact h.collection kin hc hs
  | enum owner | record owner | interface owner =>
    simp only [hkind] at hc
    exact hc _ List.mem_cons_self scope' hs
  | wrapper w owner => exact unknown (by rw [hkind])
  | placeholder | wildcard | unknown => exact unknown (by rw [hkind])

theorem occurrence
    (hc : ∀ call ∈ Call.ofOccurrence env element t scope, call.Pairs scopes T c c')
    (hs : scopes scope scope')
    (found : List.Forall₂ like (openOccurrence env element t).2 (openOccurrence env' element t).2)
    (missing : env.types.isRepresented (openOccurrence env element t).1.type = false →
      like (.undeclared env.types (subjectOf element t) (openOccurrence env element t).1.type)
        (.undeclared env'.types (subjectOf element t) (openOccurrence env element t).1.type))
    (streams : (openOccurrence env element t).1.isStream = true →
      scope'.mediaTypes.any env.config.isStreaming =
        scope.mediaTypes.any env.config.isStreaming) :
    T _ (c.occurrence env element t scope) (c'.occurrence env' element t scope') := by
  have streamed (s : Schema) :
      Compiler.streamed env'.config scope' (openOccurrence env element t).1.isStream s =
        Compiler.streamed env.config scope (openOccurrence env element t).1.isStream s := by
    unfold Compiler.streamed
    rw [kin.isStreaming]
    cases stream : (openOccurrence env element t).1.isStream with
    | false => rfl
    | true => rw [streams stream]
  have same := (kin.openOccurrence element t).1
  unfold Compiler.occurrence Pass.noting
  simp only [bind_assoc, pure_bind, same, streamed]
  exact h.bind (h.report found) fun _ => h.bind (h.opened kin hc hs missing) fun _ => h.pure _

theorem request {r r' : Request} (element : r'.element = r.element) (type : r'.type = r.type)
    (hs : scopes r.scope r'.scope)
    (hc : ∀ call ∈ Call.ofRequest r, call.Pairs scopes T c c') :
    T _ (c.request env r) (c'.request env' r') := by
  rw [Call.ofRequest, List.forall_mem_cons] at hc
  unfold Compiler.request
  rw [element, type]
  refine h.bind (hc.1 r'.scope hs) fun found => ?_
  split
  · exact h.pure _
  · split
    · exact h.pure _
    · rename_i e he
      rw [(Option.filter_eq_some_iff.mp he).1] at hc
      exact h.bind (h.bindElement kin hc.2) fun _ => h.pure _

/-! ### Members and definitions -/

variable {owner : Decl} {parent : Schema} {m : Member} {bindings : Bindings}

theorem addProperty {resolved : Resolved}
    (hc : ∀ call ∈ Call.named m.directives.typeNames, call.Pairs scopes T c c') :
    T _ (c.addProperty env owner parent m t resolved)
      (c'.addProperty env' owner parent m t resolved) := by
  unfold Compiler.addProperty
  split
  · refine h.look fun p p' same => ?_
    rw [same]
    exact h.pure _
  · exact h.bind (h.bindElement kin hc) fun _ =>
      h.bind (h.notingAdvice (m.advice_propertyName owner)) fun _ => h.pure _

theorem addMember
    (hc : ∀ call ∈ Call.ofMember env owner bindings scope m, call.Pairs scopes T c c')
    (hs : scopes scope scope') :
    T _ (c.addMember env owner bindings scope parent m)
      (c'.addMember env' owner bindings scope' parent m) := by
  unfold Compiler.addMember
  unfold Call.ofMember at hc
  rw [h.view hs, kin.isVisible]
  split
  · rename_i visible
    rw [if_pos visible, List.forall_mem_cons] at hc
    refine h.bind (hc.1 scope' hs) fun found => ?_
    split
    · exact h.pure _
    · exact h.addProperty kin hc.2
  · exact h.pure _

theorem recordSchema
    (hc : ∀ call ∈ Call.ofRecord env owner (env.types.bindings t) scope,
      call.Pairs scopes T c c') (hs : scopes scope scope') :
    T _ (c.recordSchema env owner t scope) (c'.recordSchema env' owner t scope') := by
  rw [Call.ofRecord, List.forall_mem_append] at hc
  obtain ⟨ofAncestors, ofMembers⟩ := hc
  have start : T _ (c.recordStart env owner (env.types.bindings t) scope)
      (c'.recordStart env' owner (env.types.bindings t) scope') := by
    unfold Compiler.recordStart
    rw [kin.types.composedParents, kin.types.lineage]
    split
    · exact h.pure _
    · rename_i composed
      rw [if_neg composed] at ofAncestors
      refine h.foldlM (fun s ancestor hancestor => ?_) _
      refine h.bind (ofAncestors _ (List.mem_map.mpr ⟨_, hancestor, rfl⟩) scope' hs)
        fun found => ?_
      split <;> exact h.pure _
  unfold Compiler.recordSchema
  rw [kin.types.bindings]
  refine h.bind start fun s => h.bind (h.foldlM (fun s m hm => ?_) s) fun _ => h.pure _
  exact h.addMember kin (fun call hcall => ofMembers call (List.mem_flatMap.mpr ⟨m, hm, hcall⟩)) hs

theorem build
    (hc : ∀ call ∈ Call.ofDefinition env owner (env.types.bindings t) scope,
      call.Pairs scopes T c c') (hs : scopes scope scope') :
    T _ (c.build env owner t scope) (c'.build env' owner t scope') := by
  rw [Call.ofDefinition, List.forall_mem_append] at hc
  have declared : T _ (c.declaredSchema env owner t scope)
      (c'.declaredSchema env' owner t scope') := by
    unfold Compiler.declaredSchema
    rw [kin.types.enumSchema]
    split
    · exact h.notingAdvice (owner.advice_enumValues _ _)
    · rename_i record
      rw [if_neg record] at hc
      exact h.recordSchema kin hc.1 hs
  refine h.bind declared fun s => ?_
  unfold Compiler.overlayOwn
  rw [funext (kin.types.completed t)]
  split
  · exact h.pure _
  · rename_i directive hdirective
    rw [hdirective] at hc
    exact h.bind (h.overlay kin hc.2) fun _ => h.pure _

end Pairing

end Schemata
