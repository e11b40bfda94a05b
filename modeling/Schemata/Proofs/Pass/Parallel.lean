import Schemata.Proofs.Pass.Calls
import Schemata.Proofs.Pass.Steps
import Schemata.Proofs.Schema.Alike

/-!
# Steps in parallel

A step of a pass reports, looks at the registry, and asks the compiler below it.  Two runs of a
step that are asked the same go on in parallel: they ask for the same occurrences and the same
definitions, among those that can be read off the universe.  What a run does between these
calls is said here once for all functions of a compiler; what the calls do is said elsewhere.
-/
namespace Schemata

open Comparison Schema

/-- Two steps over two compilers that do the same between calls of some set.  The names that
schemas may refer to grow from call to call; the condition is on both values at the end. -/
inductive Parallel (c c' : Compiler) (C : Comparison) (calls : Call → Prop) :
    (String → Prop) → {α : Type} → PassM α → PassM α →
      ((String → Prop) → α → α → Prop) → Prop where
  | pure {K : String → Prop} {α : Type} {a a' : α} {post : (String → Prop) → α → α → Prop}
      (h : post K a a') : Parallel c c' C calls K (Pure.pure a) (Pure.pure a') post
  | report {K : String → Prop} (ds ds' : Diagnostics) :
      Parallel c c' C calls K (Pass.report ds) (Pass.report ds') fun _ _ _ => True
  | look {K : String → Prop} {α : Type} {f f' : Pass → PassM α}
      {post : (String → Prop) → α → α → Prop}
      (h : ∀ p p', C.Views K p.registry p'.registry →
        Parallel c c' C calls K (f p) (f' p') post) :
      Parallel c c' C calls K (MonadState.get >>= f) (MonadState.get >>= f') post
  | resolve {K : String → Prop} {element : Option Element} {t : TypeRef} {scope : Scope}
      (h : calls (.resolve element t scope)) :
      Parallel c c' C calls K (c.resolve element t scope) (c'.resolve element t scope)
        fun K' => Option.Rel (C.AlikeResolved K')
  | define {K : String → Prop} {element : Option Element} {t : TypeRef} {scope : Scope}
      (h : calls (.define element t scope)) :
      Parallel c c' C calls K (c.define element t scope) (c'.define element t scope)
        fun K' => Option.Rel (C.Alike K')
  | bind {K : String → Prop} {α β : Type} {m m' : PassM α} {f f' : α → PassM β}
      {mid : (String → Prop) → α → α → Prop} {post : (String → Prop) → β → β → Prop}
      (hm : Parallel c c' C calls K m m' mid)
      (hf : ∀ K' a a', (∀ name, K name → K' name) → mid K' a a' →
        Parallel c c' C calls K' (f a) (f' a') post) :
      Parallel c c' C calls K (m >>= f) (m' >>= f') post

/-- The labels that the schema directive of a declaration gives to its schema. -/
def Decl.ownLabels (d : Decl) : Labels :=
  match d.directives.get? .schema with
  | none => {}
  | some directive => ({} : Labels).overlaid directive true

namespace Parallel

variable {c c' : Compiler} {C : Comparison} {calls : Call → Prop} {K : String → Prop}
  {α β : Type} {env : Environment} {scope : Scope}

theorem weaken {m m' : PassM α} {post post' : (String → Prop) → α → α → Prop}
    (h : Parallel c c' C calls K m m' post)
    (hpost : ∀ K' a a', (∀ name, K name → K' name) → post K' a a' → post' K' a a') :
    Parallel c c' C calls K m m' post' := by
  have whole : Parallel c c' C calls K (m >>= Pure.pure) (m' >>= Pure.pure) post' :=
    h.bind fun K' a a' hsub ha => .pure (hpost K' a a' hsub ha)
  rwa [bind_pure, bind_pure] at whole

theorem noting (found found' : α × Diagnostics) :
    Parallel c c' C calls K (Pass.noting found) (Pass.noting found')
      fun _ a a' => a = found.1 ∧ a' = found'.1 :=
  (report found.2 found'.2).bind fun _ _ _ _ _ => .pure ⟨rfl, rfl⟩

/-- A loop keeps what each round keeps. -/
theorem foldlM {f f' : β → α → PassM β} {inv : (String → Prop) → β → β → Prop} {xs : List α}
    {b b' : β}
    (hf : ∀ K' b b', (∀ name, K name → K' name) → inv K' b b' → ∀ a ∈ xs,
      Parallel c c' C calls K' (f b a) (f' b' a) inv) (hb : inv K b b') :
    Parallel c c' C calls K (xs.foldlM f b) (xs.foldlM f' b') inv := by
  induction xs generalizing K b b' with
  | nil => exact .pure hb
  | cons x xs ih =>
    rw [List.foldlM_cons, List.foldlM_cons]
    refine (hf K b b' (fun _ => id) hb x List.mem_cons_self).bind fun K' b b' hsub hb => ?_
    refine ih (fun K'' b b' hsub' hb a ha => ?_) hb
    exact hf K'' b b' (fun name hname => hsub' name (hsub name hname)) hb a
      (List.mem_cons_of_mem _ ha)

theorem mapM {f f' : α → PassM β} {each : (String → Prop) → β → β → Prop} {xs : List α}
    (mono : ∀ {K K' : String → Prop} {y y' : β}, (∀ name, K name → K' name) → each K y y' →
      each K' y y')
    (hf : ∀ K' : String → Prop, ∀ a ∈ xs, Parallel c c' C calls K' (f a) (f' a) each) :
    Parallel c c' C calls K (xs.mapM f) (xs.mapM f') fun K' => List.Forall₂ (each K') := by
  induction xs generalizing K with
  | nil =>
    rw [List.mapM_nil, List.mapM_nil]
    exact .pure .nil
  | cons x xs ih =>
    rw [List.mapM_cons, List.mapM_cons]
    refine (hf K x List.mem_cons_self).bind fun K' y y' _ hy => ?_
    refine (ih fun K a ha => hf K a (List.mem_cons_of_mem _ ha)).bind fun K'' ys ys' hsub hys => ?_
    exact .pure (.cons (mono hsub hy) hys)

/-! ### Named types -/

theorem schema? {t : TypeRef} (h : calls (.resolve none t scope)) :
    Parallel c c' C calls K (c.schema? t scope) (c'.schema? t scope) C.Found := by
  refine (resolve h).bind fun K' found found' _ hfound => .pure ?_
  cases hfound with
  | none => exact .none
  | some hr => exact .some hr.outer

theorem named? {subject subject' text : String} (h : ∀ call ∈ Call.named [text], calls call) :
    Parallel c c' C calls K (c.named? subject text) (c'.named? subject' text) C.Found := by
  unfold Compiler.named?
  split
  · rename_i t ht
    refine schema? (h _ ?_)
    simp [Call.named, TypeRef.parse?, ht, Except.toOption]
  · exact (report _ _).bind fun _ _ _ _ _ => .pure .none

theorem allNamed {subject subject' : String} {texts : List String}
    (h : ∀ call ∈ Call.named texts, calls call) :
    Parallel c c' C calls K (c.allNamed subject texts) (c'.allNamed subject' texts) C.SameAll := by
  have each (K' : String → Prop) (text : String) (ht : text ∈ texts) :
      Parallel c c' C calls K' (c.named? subject text) (c'.named? subject' text) C.Found :=
    named? fun call hcall => h call (Call.named_subset (by simpa using ht) hcall)
  refine (mapM (fun hsub hy => hy.mono hsub) each).bind fun K' found found' _ hfound => ?_
  exact .pure (sameAll_filterMap hfound)

/-! ### Directives -/

variable {s s' : Schema} {d : Directive} {subject subject' : String}

theorem mappedSchemas {entries : List (String × Json)} {mapping mapping' : Assoc String String}
    (h : ∀ call ∈ Call.named (entries.filterMap (Json.asStr? ·.2)), calls call)
    (start : C.exact → mapping = mapping') :
    Parallel c c' C calls K (c.mappedSchemas subject entries mapping)
      (c'.mappedSchemas subject' entries mapping') fun _ m m' => C.exact → m = m' := by
  refine foldlM (fun K' m m' _ hm entry hentry => ?_) start
  cases htext : entry.2.asStr? with
  | none => exact .pure hm
  | some text =>
    have named : ∀ call ∈ Call.named [text], calls call := fun call hcall =>
      h call (Call.named_subset (by simpa using ⟨_, _, hentry, htext⟩) hcall)
    refine (named? named).bind fun K'' found found' _ hfound => ?_
    have paths (exact : C.exact) : found.bind Schema.ref = found'.bind Schema.ref := by
      rw [hfound.eq exact]
    generalize found.bind Schema.ref = path at paths ⊢
    generalize found'.bind Schema.ref = path' at paths ⊢
    cases path <;> cases path' <;>
      exact .pure fun exact => by
        have same := paths exact
        simp_all

theorem discriminator?
    (h : ∀ call ∈ Call.named (((d.section? "mappingSchemas").getD []).filterMap (Json.asStr? ·.2)),
      calls call) :
    Parallel c c' C calls K (c.discriminator? subject d) (c'.discriminator? subject' d)
      fun _ found found' => C.exact → found = found' := by
  unfold Compiler.discriminator?
  split
  · exact (report _ _).bind fun _ _ _ _ _ => .pure fun _ => rfl
  · refine (mappedSchemas h fun _ => rfl).bind fun _ m m' _ hm => .pure fun exact => ?_
    rw [hm exact]

theorem withDiscriminator (hs : C.Same K s s')
    (h : ∀ call ∈ Call.named d.discriminatorNames, calls call) :
    Parallel c c' C calls K (c.withDiscriminator s d subject) (c'.withDiscriminator s' d subject')
      (C.Keeps s s') := by
  unfold Compiler.withDiscriminator
  split
  · exact .pure ⟨.refl s, .refl s', hs⟩
  · rename_i inner hinner
    rw [Directive.discriminatorNames, hinner] at h
    refine (discriminator? h).bind fun K' found found' hsub hfound => .pure ?_
    refine ⟨⟨rfl, rfl, rfl⟩, ⟨rfl, rfl, rfl⟩, fun exact => ?_⟩
    obtain ⟨rfl, into⟩ := hs exact
    rw [hfound exact]
    exact ⟨rfl, (into.mono hsub).of_same rfl rfl⟩

theorem withAdditional (hs : C.Same K s s')
    (h : ∀ call ∈ Call.named d.additionalNames, calls call) :
    Parallel c c' C calls K (c.withAdditional s d subject) (c'.withAdditional s' d subject')
      (C.Keeps s s') := by
  unfold Compiler.withAdditional
  split
  · exact .pure ⟨⟨rfl, rfl, rfl⟩, ⟨rfl, rfl, rfl⟩,
      hs.map (f := fun s => { s with additional := _ }) fun hs => hs.withoutAdditional _⟩
  · rename_i text htext
    rw [Directive.additionalNames, htext] at h
    refine (named? h).bind fun K' found found' hsub hfound => ?_
    cases hfound with
    | none => exact .pure ⟨.refl s, .refl s', hs.mono hsub⟩
    | some hvalue =>
      exact .pure ⟨⟨rfl, rfl, rfl⟩, ⟨rfl, rfl, rfl⟩,
        (hs.mono hsub).map₂ hvalue (f := fun s t => { s with additional := some (.schema t) })
          fun hs ht => hs.withAdditional ht⟩
  · exact .pure ⟨.refl s, .refl s', hs⟩

theorem withNot (hs : C.Same K s s')
    (h : ∀ call ∈ Call.named (d.text? "not").toList, calls call) :
    Parallel c c' C calls K (c.withNot s d subject) (c'.withNot s' d subject') (C.Keeps s s') := by
  unfold Compiler.withNot
  split
  · exact .pure ⟨.refl s, .refl s', hs⟩
  · rename_i text htext
    rw [htext] at h
    refine (named? h).bind fun K' found found' hsub hfound => .pure ?_
    exact ⟨⟨rfl, rfl, rfl⟩, ⟨rfl, rfl, rfl⟩,
      (hs.mono hsub).withFound hfound (f := fun s found => { s with not := found.or s.not })
        fun hs ht => hs.withNot ht⟩

theorem withAlternatives (hs : C.Same K s s')
    (h : ∀ call ∈ Call.named (d.texts "allOf" ++ d.texts "anyOf" ++ d.texts "oneOf"), calls call) :
    Parallel c c' C calls K (c.withAlternatives s d subject) (c'.withAlternatives s' d subject')
      (C.Keeps s s') := by
  have names {K : String → Prop} {texts : List String}
      (sub : texts ⊆ d.texts "allOf" ++ d.texts "anyOf" ++ d.texts "oneOf") :
      Parallel c c' C calls K (c.allNamed subject texts) (c'.allNamed subject' texts) C.SameAll :=
    allNamed fun call hcall => h call (Call.named_subset sub hcall)
  refine (names (by simp)).bind fun K₁ all all' sub₁ hall => ?_
  refine (names (by simp)).bind fun K₂ any any' sub₂ hany => ?_
  refine (names (by simp)).bind fun K₃ one one' sub₃ hone => .pure ?_
  refine ⟨⟨rfl, rfl, rfl⟩, ⟨rfl, rfl, rfl⟩, fun exact => ?_⟩
  have later (name : String) (hname : K₁ name) : K₃ name := sub₃ name (sub₂ name hname)
  obtain ⟨rfl, own⟩ := hs.mono (fun name hname => later name (sub₁ name hname)) exact
  obtain ⟨rfl, inAll⟩ := hall.mono later exact
  obtain ⟨rfl, inAny⟩ := hany.mono sub₃ exact
  obtain ⟨rfl, inOne⟩ := hone exact
  exact ⟨rfl, own.withAlternatives inAll inAny inOne⟩

/-- A directive keeps all references of a schema, unless it states one. -/
theorem overlay {t t' : TypeRef} {element : Option Element} (hs : C.Same K s s')
    (same : C.exact → t = t') (free : C.exact → d.text? "$ref" = none)
    (h : ∀ call ∈ Call.named d.typeNames, calls call) :
    Parallel c c' C calls K (c.overlay env s d element t) (c'.overlay env s' d element t')
      (C.LaysOver d (!element.any Element.isMember) s s') := by
  rw [Directive.typeNames, Call.named_append, Call.named_append, Call.named_append] at h
  simp only [List.forall_mem_append] at h
  obtain ⟨⟨⟨ofDiscriminator, ofAdditional⟩, ofNot⟩, ofAlternatives⟩ := h
  have stated {t : TypeRef} {s s₁ : Schema}
      (h₁ : s₁ = (s.overlaid d (!element.any Element.isMember) (subjectOf element t)).1) :
      s.LaidOver d (!element.any Element.isMember) s₁ := by
    rw [h₁]
    exact ⟨rfl, rfl, rfl⟩
  refine (noting _ _).bind fun K₁ s₁ s₁' sub₁ h₁ => look fun p p' views => ?_
  refine (noting _ _).bind fun K₂ s₂ s₂' sub₂ h₂ => ?_
  have start : C.Same K₁ s₁ s₁' := by
    intro exact
    obtain ⟨rfl, into⟩ := (hs.mono sub₁) exact
    rw [h₁.1, h₁.2, same exact]
    refine ⟨rfl, into.of_same ?_ rfl⟩
    rw [Schema.overlaid, free exact, Option.none_or]
  have literals : C.Same K₂ s₂ s₂' := by
    intro exact
    have types := start.list.literalType views exact env.types t
    obtain ⟨rfl, into⟩ := start.mono sub₂ exact
    rw [h₂.1, h₂.2, ← same exact, Schema.withLiterals, Schema.withLiterals, types]
    exact ⟨rfl, into.of_same rfl rfl⟩
  have left : s₁.Kept s₂ := h₂.1 ▸ ⟨rfl, rfl, rfl⟩
  have right : s₁'.Kept s₂' := h₂.2 ▸ ⟨rfl, rfl, rfl⟩
  refine (withDiscriminator literals ofDiscriminator).bind fun K₃ s₃ s₃' _ h₃ => ?_
  have extended : C.Same K₃ (Compiler.withExtensions s₃ d) (Compiler.withExtensions s₃' d) :=
    h₃.same.map (f := (Compiler.withExtensions · d)) fun hs => hs.of_same rfl rfl
  have unchanged (s : Schema) : s.Kept (Compiler.withExtensions s d) := ⟨rfl, rfl, rfl⟩
  refine (withAdditional extended ofAdditional).bind fun K₄ s₄ s₄' _ h₄ => ?_
  refine (withNot h₄.same ofNot).bind fun K₅ s₅ s₅' _ h₅ => ?_
  refine (withAlternatives h₅.same ofAlternatives).weaken fun K₆ s₆ s₆' _ h₆ => ?_
  refine ⟨(stated h₁.1).kept ?_, (stated h₁.2).kept ?_, h₆.same⟩
  · exact (((left.trans h₃.left).trans (unchanged s₃)).trans h₄.left).trans
      (h₅.left.trans h₆.left)
  · exact (((right.trans h₃.right).trans (unchanged s₃')).trans h₄.right).trans
      (h₅.right.trans h₆.right)

variable {t : TypeRef}

/-- The items are those of a named type, or are overlaid where they are. -/
theorem overlayItems {items : Directive} (hs : C.Alike K s s')
    (free : C.exact → items.text? "$ref" = none)
    (h : ∀ call ∈ Call.named items.itemNames, calls call) :
    Parallel c c' C calls K (c.overlayItems env s items t) (c'.overlayItems env s' items t)
      C.Same := by
  unfold Compiler.overlayItems
  split
  · rename_i text htext
    rw [Directive.itemNames, htext] at h
    refine (named? h).bind fun K' found found' hsub hfound => .pure ?_
    exact (hs.same.mono hsub).withFound hfound
      (f := fun s found => { s with items := found.or s.items }) fun hs ht => hs.withItems ht
  · rename_i htext
    rw [Directive.itemNames, htext] at h
    cases hitems : s.items with
    | none =>
      have none' : s'.items = none := by simpa [hitems] using hs.items.symm
      rw [none']
      exact .pure hs.same
    | some current =>
      obtain ⟨current', some'⟩ : ∃ current', s'.items = some current' := by
        simpa [hitems, Option.isSome_iff_exists] using hs.items.symm
      rw [some']
      have inside : C.Same K current current' := by
        intro exact
        obtain ⟨rfl, into⟩ := hs.same exact
        cases hitems.symm.trans some'
        exact ⟨rfl, into.of_mem_parts (mem_parts.mpr (.inl hitems))⟩
      refine (overlay inside (fun _ => rfl) free h).bind fun K' changed changed' hsub hc => .pure ?_
      exact (hs.same.mono hsub).map₂ hc.same
        (f := fun s changed => { s with items := some changed }) fun hs ht => hs.withItem ht

theorem overlayArray (hs : C.Alike K s s') (free : C.exact → d.isRefFree = true)
    (h : ∀ call ∈ Call.named d.arrayTypeNames, calls call) :
    Parallel c c' C calls K (c.overlayArray env s d t) (c'.overlayArray env s' d t) C.Same := by
  rw [Directive.arrayTypeNames, Call.named_append, List.forall_mem_append] at h
  obtain ⟨ofOwn, ofItems⟩ := h
  refine (overlay hs.same (fun _ => rfl) (fun exact => Directive.own_of_isRefFree (free exact))
    ofOwn).bind fun K' s₁ s₁' hsub h₁ => ?_
  have laid : C.Alike K' s₁ s₁' := h₁.alike (hs.mono hsub)
  have counted := laid.map (f := fun s =>
    { s with
      facets.minItems := (d.count? "minItems").or s.facets.minItems
      facets.maxItems := (d.count? "maxItems").or s.facets.maxItems
      facets.uniqueItems := d.raised "uniqueItems" s.facets.uniqueItems })
    (fun _ => rfl) (fun _ => rfl) fun hs => hs.of_same rfl rfl
  split
  · exact .pure counted.same
  · rename_i items hitems
    rw [hitems] at ofItems
    exact overlayItems counted
      (fun exact => Directive.items_of_isRefFree (free exact) hitems) ofItems

variable {e : Element}

theorem overlayStated (hs : C.Alike K s s') (free : C.exact → e.directives.isRefFree = true)
    (h : ∀ call ∈ Call.named e.directives.typeNames, calls call) :
    Parallel c c' C calls K (c.overlayStated env s e t) (c'.overlayStated env s' e t)
      C.Alike := by
  rw [Directives.typeNames, Call.named_append, List.forall_mem_append] at h
  unfold Compiler.overlayStated
  split
  · rename_i d hd
    have hget : e.directives.get? .schema = some d := hd
    rw [hget] at h
    refine (overlay hs.same (fun _ => rfl) (fun exact => ?_) h.1).weaken
      fun K' t t' hsub ht => ht.alike (hs.mono hsub)
    exact Directive.own_of_isRefFree (Directives.schema_of_isRefFree (free exact) hd)
  · exact .pure hs

theorem overlayStatedArray (hs : C.Alike K s s') (free : C.exact → e.directives.isRefFree = true)
    (h : ∀ call ∈ Call.named e.directives.typeNames, calls call) :
    Parallel c c' C calls K (c.overlayStatedArray env s e t) (c'.overlayStatedArray env s' e t)
      C.Same := by
  rw [Directives.typeNames, Call.named_append, List.forall_mem_append] at h
  unfold Compiler.overlayStatedArray
  split
  · rename_i d hd
    have hget : e.directives.get? .arraySchema = some d := hd
    rw [hget] at h
    exact overlayArray hs
      (fun exact => Directives.arraySchema_of_isRefFree (free exact) hd) h.2
  · exact .pure hs.same

theorem overlayAll {target target' : ConstraintTarget} {fallback fallback' : List Schema}
    (hs : C.Alike K s s') (same : C.exact → target = target')
    (hfallback : C.SameAll K fallback fallback')
    (free : C.exact → e.directives.isRefFree = true)
    (h : ∀ call ∈ Call.named e.directives.typeNames, calls call) :
    Parallel c c' C calls K (c.overlayAll env s e t target fallback)
      (c'.overlayAll env s' e t target' fallback') C.Same := by
  refine (overlayStated hs free h).bind fun K₁ s₁ s₁' sub₁ h₁ => ?_
  refine (overlayStatedArray h₁ free h).bind fun K₂ s₂ s₂' sub₂ h₂ => look fun p p' views => ?_
  have constrained : C.Same K₂ (s₂.constrained target e.directives)
      (s₂'.constrained target' e.directives) := by
    intro exact
    rw [← same exact]
    exact h₂.map (f := (Schema.constrained · target e.directives))
      (fun hs => hs.of_same rfl rfl) exact
  have candidates := constrained.cons (hfallback.mono fun name hname => sub₂ name (sub₁ name hname))
  refine (noting _ _).bind fun K₃ value value' sub₃ hvalue => .pure fun exact => ?_
  have types := candidates.literalType views exact env.types t
  obtain ⟨equal, into⟩ := constrained.mono sub₃ exact
  rw [hvalue.1, hvalue.2, types, equal]
  exact ⟨rfl, (equal ▸ into).of_same rfl rfl⟩

/-- An element is bound to equal schemas where equal ones are asked for. -/
theorem bindElement {derived derived' : Schema} {nullable : Bool} (hs : C.Alike K derived derived')
    (free : C.exact → e.directives.isRefFree = true)
    (h : ∀ call ∈ Call.named e.directives.typeNames, calls call) :
    Parallel c c' C calls K (c.bind env e t derived nullable) (c'.bind env e t derived' nullable)
      C.Same := by
  refine look fun p p' views => ?_
  have target (exact : C.exact) : Element.constraintTarget env p.registry t derived =
      Element.constraintTarget env p'.registry t derived' := by
    obtain ⟨rfl, -⟩ := hs.same exact
    rw [Element.constraintTarget, Element.constraintTarget, hs.same.resolve? views exact]
  dsimp only
  rw [← hs.isRef]
  split
  · have start : C.Alike K {} {} := .refl fun _ => .empty
    refine (overlayAll start target hs.same.list free h).bind fun K' s s' hsub h' => .pure ?_
    exact (hs.same.mono hsub).map₂ h' (f := fun derived s => derived.compose s e _)
      fun hd hs => hd.compose hs e _
  · refine (overlayAll hs target (fun _ => ⟨rfl, fun _ h => by cases h⟩) free h).bind
      fun K' s s' hsub h' => .pure ?_
    have labelled := h'.map (f := fun s =>
      { s with labels.deprecated :=
          if e.has .deprecated then some true else s.labels.deprecated })
      fun hs => hs.of_same rfl rfl
    exact labelled.map (f := (Schema.nullableIf · (e.admitsNull nullable))) (·.nullableIf _)

/-! ### Occurrences and requests -/

theorem argument {arg : TypeRef} (h : calls (.resolve none arg scope)) :
    Parallel c c' C calls K (c.argument env arg scope) (c'.argument env arg scope) C.Found := by
  refine (schema? h).bind fun K' found found' _ hfound => .pure ?_
  exact hfound.map fun s hs => hs.withUse env.types arg

theorem unrolledMap {owner : Decl} {key value : TypeRef} (hkey : calls (.define none key scope))
    (hvalue : calls (.resolve none value scope)) :
    Parallel c c' C calls K (c.unrolledMap env owner key value scope)
      (c'.unrolledMap env owner key value scope) C.Alike := by
  refine (define hkey).bind fun K₁ _ _ _ _ => (argument hvalue).bind fun K₂ found found' _ hfound =>
    (noting _ _).bind fun K₃ keys keys' sub hkeys => .pure ?_
  refine ⟨rfl, rfl, fun exact => ?_⟩
  rw [hkeys.1, hkeys.2, hfound.eq exact]
  have into : (found'.getD .object).RefersInto K₃ := by
    cases hfound with
    | none => exact .of_leaf rfl rfl
    | some hs =>
      obtain ⟨rfl, into⟩ := hs.mono sub exact
      exact into
  refine ⟨rfl, .withProperties (.of_mem_ofList fun entry hentry => ?_)⟩
  obtain ⟨key, _, rfl⟩ := List.mem_map.mp hentry
  exact into

theorem uniformMap {value : TypeRef}
    (h : Compiler.admitsAll env.types value = false → calls (.resolve none value scope)) :
    Parallel c c' C calls K (c.uniformMap env value scope) (c'.uniformMap env value scope)
      C.Alike := by
  have any {K : String → Prop} : C.Alike K { Schema.object with additional := some (.allowed true) }
      { Schema.object with additional := some (.allowed true) } :=
    .refl fun _ => .of_leaf rfl rfl
  unfold Compiler.uniformMap
  split
  · exact .pure any
  · rename_i said
    refine (argument (h (by simpa using said))).bind fun K' found found' _ hfound => ?_
    cases hfound with
    | none => exact .pure any
    | some hs =>
      have object : Schema.object.RefersInto K' := .of_leaf rfl rfl
      exact .pure ⟨rfl, rfl, hs.map
        (f := fun s => { Schema.object with additional := some (.schema s) })
        fun hs => object.withAdditional hs⟩

theorem map {args : List TypeRef} (h : ∀ call ∈ Call.ofMap env.types args scope, calls call) :
    Parallel c c' C calls K (c.map env args scope) (c'.map env args scope) C.Alike := by
  cases args with
  | nil => exact .pure (.refl fun _ => .of_leaf rfl rfl)
  | cons key rest =>
    simp only [Compiler.map, Call.ofMap] at h ⊢
    generalize env.types.kindOf key = kind at h ⊢
    cases kind with
    | enum d => exact unrolledMap (h _ (by simp)) (h _ (by simp))
    | _ => exact uniformMap fun said => h _ (by simp [said])

theorem arrayOf {item : TypeRef}
    (h : env.types.primitiveOf? item ≠ some .byte → calls (.resolve none item scope)) :
    Parallel c c' C calls K (c.arrayOf env item scope) (c'.arrayOf env item scope)
      fun K' => Option.Rel (C.Alike K') := by
  unfold Compiler.arrayOf
  split
  · exact .pure (.some (.refl fun _ => .of_leaf rfl rfl))
  · rename_i other
    refine (argument (h other)).bind fun K' found found' _ hfound => .pure ?_
    cases hfound with
    | none => exact .none
    | some hs => exact .some (.array hs)

theorem collection {element : Option Element} {owner : Decl}
    (h : ∀ call ∈ (if env.types.hasProperties owner then [Call.define element t scope]
      else (env.types.bindings t).values.head?.toList.map fun item => .resolve none item scope),
        calls call) :
    Parallel c c' C calls K (c.collection env element owner t scope)
      (c'.collection env element owner t scope) fun K' => Option.Rel (C.Alike K') := by
  unfold Compiler.collection
  split
  · rename_i declared
    rw [if_pos declared] at h
    exact define (h _ List.mem_cons_self)
  · rename_i plain
    rw [if_neg plain] at h
    split
    · exact .pure (.some (.refl fun _ => .array (.of_leaf rfl rfl)))
    · rename_i item rest hvalues
      rw [hvalues] at h
      refine (argument (h _ List.mem_cons_self)).bind fun K' found found' _ hfound => .pure ?_
      cases hfound with
      | none => exact .none
      | some hs => exact .some (.array hs)

theorem opened {element : Option Element}
    (h : ∀ call ∈ Call.ofOpened env.types element t scope, calls call) :
    Parallel c c' C calls K (c.opened env subject element t scope)
      (c'.opened env subject element t scope) fun K' => Option.Rel (C.Alike K') := by
  unfold Compiler.opened
  unfold Call.ofOpened at h
  cases hkind : env.types.kindOf t with
  | array item =>
    simp only [hkind] at h
    exact arrayOf fun other => h _ (by simp [other])
  | primitive p => exact .pure (.some (.refl fun _ => (RefersInto.primitive p).used _ _))
  | map owner =>
    simp only [hkind] at h
    exact (map h).bind fun K' s s' _ hs => .pure (.some hs)
  | iterable owner =>
    simp only [hkind] at h
    exact collection h
  | enum owner =>
    simp only [hkind] at h
    exact define (h _ List.mem_cons_self)
  | record owner =>
    simp only [hkind] at h
    exact define (h _ List.mem_cons_self)
  | interface owner =>
    simp only [hkind] at h
    exact define (h _ List.mem_cons_self)
  | wrapper w owner => exact (report _ _).bind fun _ _ _ _ _ => .pure .none
  | placeholder => exact (report _ _).bind fun _ _ _ _ _ => .pure .none
  | wildcard => exact (report _ _).bind fun _ _ _ _ _ => .pure .none
  | unknown => exact (report _ _).bind fun _ _ _ _ _ => .pure .none

theorem occurrence {element : Option Element}
    (h : ∀ call ∈ Call.ofOccurrence env element t scope, calls call) :
    Parallel c c' C calls K (c.occurrence env element t scope)
      (c'.occurrence env element t scope) fun K' => Option.Rel (C.AlikeResolved K') := by
  refine (noting _ _).bind fun K' content content' _ hcontent => ?_
  rw [hcontent.1, hcontent.2]
  refine (opened h).bind fun K'' found found' _ hfound => .pure ?_
  cases hfound with
  | none => exact .none
  | some hs => exact .some ⟨rfl, (hs.describedBy element).streamed _ _ _⟩

theorem request {r : Request} (free : C.exact → r.isRefFree = true)
    (h : ∀ call ∈ Call.ofRequest r, calls call) :
    Parallel c c' C calls K (c.request env r) (c'.request env r) C.Found := by
  rw [Call.ofRequest, List.forall_mem_cons] at h
  refine (resolve h.1).bind fun K' found found' _ hfound => ?_
  cases hfound with
  | none => exact .pure .none
  | some hr =>
    rename_i found found'
    cases hbare : r.element.filter (!·.directives.isEmpty) with
    | none =>
      exact .pure (.some hr.outer)
    | some e =>
      have helement := (Option.filter_eq_some_iff.mp hbare).1
      rw [helement] at h
      dsimp only
      rw [hr.nullable]
      refine (bindElement hr.schema
        (fun exact => Request.element_of_isRefFree (free exact) helement) h.2).bind fun K'' s s' _ hs => .pure (.some hs)

/-! ### Members and definitions

Definitions are only compared for what they ask for.  Their labels are those of the schema
directive of the declaration. -/

variable {owner : Decl} {parent parent' : Schema} {m : Member} {bindings : Bindings}

theorem addAncestor (h : calls (.define none t scope)) :
    Parallel c c' C calls K (c.addAncestor scope parent t) (c'.addAncestor scope parent' t)
      fun _ s _ => s.labels = parent.labels := by
  refine (define h).bind fun K' found found' _ hfound => ?_
  cases hfound with
  | none => exact .pure rfl
  | some _ => exact .pure rfl

section

variable (loose : ¬ C.exact)

include loose

theorem addProperty {resolved resolved' : Resolved} (hr : C.AlikeResolved K resolved resolved')
    (h : ∀ call ∈ Call.named m.directives.typeNames, calls call) :
    Parallel c c' C calls K (c.addProperty env owner parent m t resolved)
      (c'.addProperty env owner parent' m t resolved') fun _ s _ => s.labels = parent.labels := by
  unfold Compiler.addProperty
  split
  · exact look fun p p' _ => .pure (Schema.labels_inlined _ _ _ _)
  · dsimp only
    rw [hr.nullable]
    exact (bindElement hr.schema (fun exact => absurd exact loose) h).bind fun _ _ _ _ _ =>
      (noting _ _).bind fun _ _ _ _ _ => .pure rfl

theorem addMember (h : ∀ call ∈ Call.ofMember env owner bindings scope m, calls call) :
    Parallel c c' C calls K (c.addMember env owner bindings scope parent m)
      (c'.addMember env owner bindings scope parent' m) fun _ s _ => s.labels = parent.labels := by
  unfold Compiler.addMember
  unfold Call.ofMember at h
  split
  · rename_i visible
    rw [if_pos visible, List.forall_mem_cons] at h
    refine (resolve h.1).bind fun K' found found' _ hfound => ?_
    cases hfound with
    | none => exact .pure rfl
    | some hr => exact addProperty loose hr h.2
  · exact .pure rfl

theorem recordSchema {t' : TypeRef} (same : env.types.bindings t = env.types.bindings t')
    (h : ∀ call ∈ Call.ofRecord env owner (env.types.bindings t) scope, calls call) :
    Parallel c c' C calls K (c.recordSchema env owner t scope)
      (c'.recordSchema env owner t' scope) fun _ s _ => s.labels = {} := by
  rw [Call.ofRecord, List.forall_mem_append] at h
  obtain ⟨ofAncestors, ofMembers⟩ := h
  unfold Compiler.recordSchema
  rw [← same]
  have start : Parallel c c' C calls K
      (c.recordStart env owner (env.types.bindings t) scope)
      (c'.recordStart env owner (env.types.bindings t) scope) fun _ s _ => s.labels = {} := by
    unfold Compiler.recordStart
    split
    · exact .pure rfl
    · rename_i composed
      rw [if_neg composed] at ofAncestors
      refine foldlM (fun K' s s' _ hs ancestor ha => ?_) rfl
      exact (addAncestor (ofAncestors _ (List.mem_map.mpr ⟨_, ha, rfl⟩))).weaken
        fun _ _ _ _ kept => kept.trans hs
  refine start.bind fun K₁ s₁ s₁' _ h₁ => ?_
  have members : Parallel c c' C calls K₁
      (c.addMembers env owner (env.types.bindings t) scope s₁)
      (c'.addMembers env owner (env.types.bindings t) scope s₁') fun _ s _ => s.labels = {} :=
    foldlM (fun K' s s' _ hs m hm => (addMember loose fun call hcall =>
      ofMembers call (List.mem_flatMap.mpr ⟨m, hm, hcall⟩)).weaken
        fun _ _ _ _ kept => kept.trans hs) h₁
  exact members.bind fun K₂ s₂ s₂' _ h₂ => .pure ((Schema.labels_settled s₂).trans h₂)

/-- Two definitions of a declaration whose parameters stand for the same types. -/
theorem build {t' : TypeRef} (same : env.types.bindings t = env.types.bindings t')
    (h : ∀ call ∈ Call.ofDefinition env owner (env.types.bindings t) scope, calls call) :
    Parallel c c' C calls K (c.build env owner t scope) (c'.build env owner t' scope)
      fun _ s _ => s.labels = owner.ownLabels := by
  rw [Call.ofDefinition, List.forall_mem_append] at h
  have declared : Parallel c c' C calls K (c.declaredSchema env owner t scope)
      (c'.declaredSchema env owner t' scope) fun _ s _ => s.labels = {} := by
    unfold Compiler.declaredSchema
    split
    · exact (noting _ _).weaken fun _ _ _ _ hs => by rw [hs.1]; rfl
    · rename_i notEnum
      rw [if_neg notEnum] at h
      exact recordSchema loose same h.1
  refine declared.bind fun K' s s' _ hs => ?_
  unfold Compiler.overlayOwn Decl.ownLabels
  cases hd : owner.directives.get? .schema with
  | none => exact .pure hs
  | some directive =>
    rw [hd] at h
    refine (overlay (fun exact => absurd exact loose) (fun exact => absurd exact loose)
      (fun exact => absurd exact loose) h.2).bind fun K'' s₁ s₁' _ h₁ => .pure ?_
    rw [Schema.labels_completed, h₁.left.labels, hs]
    rfl

end

end Parallel

end Schemata
