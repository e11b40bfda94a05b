import Mathlib.Data.List.Forall2
import Schemata.Pass.Request
import Schemata.Proofs.Directive.References
import Schemata.Proofs.Schema.References

/-!
# Schemas of two runs

Two runs of one step may find more or fewer definitions finished.  What they do next depends
on two things that a schema shows: whether it is a reference and whether it has items.  Where
the runs are to come to equal schemas, the references of a schema have to point to names of
which both registries hold the same.
-/
namespace Schemata

open Schema

/-- How two runs are compared. -/
structure Comparison where
  /-- Whether equal schemas are asked for. -/
  exact : Prop

namespace Comparison

variable (C : Comparison) (K : String → Prop)

/-- Where equal schemas are asked for, these are equal and refer to names in the set. -/
def Same (s s' : Schema) : Prop := C.exact → s = s' ∧ s.RefersInto K

/-- Both runs go on alike from these schemas. -/
structure Alike (s s' : Schema) : Prop where
  isRef : s.isRef = s'.isRef
  items : s.items.isSome = s'.items.isSome
  same : C.Same K s s'

/-- Where equal schemas are asked for, both registries hold the same of the names in the set. -/
def Views (r r' : Registry) : Prop :=
  C.exact → ∀ name, K name → r.get? name = r'.get? name

variable {C K} {K' : String → Prop} {s s' t t' : Schema}

namespace Same

theorem mono (h : C.Same K s s') (hsub : ∀ name, K name → K' name) : C.Same K' s s' :=
  fun exact => ⟨(h exact).1, (h exact).2.mono hsub⟩

theorem refl (h : C.exact → s.RefersInto K) : C.Same K s s := fun exact => ⟨rfl, h exact⟩

/-- What is done to one schema. -/
theorem map (h : C.Same K s s') {f : Schema → Schema}
    (hf : s.RefersInto K → (f s).RefersInto K) : C.Same K (f s) (f s') :=
  fun exact => ⟨congrArg f (h exact).1, hf (h exact).2⟩

/-- What is made of two schemas. -/
theorem map₂ (hs : C.Same K s s') (ht : C.Same K t t') {f : Schema → Schema → Schema}
    (hf : s.RefersInto K → t.RefersInto K → (f s t).RefersInto K) :
    C.Same K (f s t) (f s' t') := by
  intro exact
  obtain ⟨rfl, own⟩ := hs exact
  obtain ⟨rfl, other⟩ := ht exact
  exact ⟨rfl, hf own other⟩

end Same

namespace Alike

theorem mono (h : C.Alike K s s') (hsub : ∀ name, K name → K' name) : C.Alike K' s s' :=
  ⟨h.isRef, h.items, h.same.mono hsub⟩

theorem refl (h : C.exact → s.RefersInto K) : C.Alike K s s := ⟨rfl, rfl, .refl h⟩

theorem array (h : C.Same K s s') : C.Alike K (Schema.array s) (Schema.array s') :=
  ⟨rfl, rfl, h.map RefersInto.array⟩

/-- A change that leaves the reference and the items as they are. -/
theorem map (h : C.Alike K s s') {f : Schema → Schema} (href : ∀ s, (f s).isRef = s.isRef)
    (hitems : ∀ s, (f s).items = s.items) (hf : s.RefersInto K → (f s).RefersInto K) :
    C.Alike K (f s) (f s') := by
  refine ⟨?_, ?_, h.same.map hf⟩
  · rw [href, href, h.isRef]
  · rw [hitems, hitems, h.items]

theorem describedBy (h : C.Alike K s s') (element : Option Element) :
    C.Alike K (Compiler.describedBy element s) (Compiler.describedBy element s') := by
  refine h.map (fun s => ?_) (fun s => ?_) fun hs => hs.describedBy element
  · unfold Compiler.describedBy
    split <;> rfl
  · unfold Compiler.describedBy
    split <;> rfl

theorem streamed (h : C.Alike K s s') (config : Config) (scope : Scope) (isStream : Bool) :
    C.Alike K (Compiler.streamed config scope isStream s)
      (Compiler.streamed config scope isStream s') := by
  unfold Compiler.streamed
  split
  · exact array h.same
  · exact h

end Alike

/-- Two answers to one call. -/
structure AlikeResolved (C : Comparison) (K : String → Prop) (r r' : Resolved) : Prop where
  nullable : r.nullable = r'.nullable
  schema : C.Alike K r.schema r'.schema

theorem AlikeResolved.outer {r r' : Resolved} (h : C.AlikeResolved K r r') :
    C.Same K r.outer r'.outer := by
  unfold Resolved.outer
  rw [h.nullable]
  split
  · exact h.schema.same.map RefersInto.setNullable
  · exact h.schema.same

/-! ### Schemas that may be missing -/

/-- Both runs found nothing, or schemas that are the same where equal ones are asked for. -/
def Found (C : Comparison) (K : String → Prop) : Option Schema → Option Schema → Prop :=
  Option.Rel (C.Same K)

variable {found found' : Option Schema}

theorem Found.mono (h : C.Found K found found') (hsub : ∀ name, K name → K' name) :
    C.Found K' found found' := by
  cases h with
  | none => exact .none
  | some h => exact .some (h.mono hsub)

theorem Found.map (h : C.Found K found found') {f : Schema → Schema}
    (hf : ∀ s, s.RefersInto K → (f s).RefersInto K) : C.Found K (found.map f) (found'.map f) := by
  cases h with
  | none => exact .none
  | some h => exact .some (h.map (hf _))

/-- What is made of a schema and of one that may be missing. -/
theorem Same.withFound (hs : C.Same K s s') (h : C.Found K found found')
    {f : Schema → Option Schema → Schema}
    (hf : s.RefersInto K → (∀ t, found = some t → t.RefersInto K) → (f s found).RefersInto K) :
    C.Same K (f s found) (f s' found') := by
  intro exact
  obtain ⟨rfl, own⟩ := hs exact
  cases h with
  | none => exact ⟨rfl, hf own fun _ h => by cases h⟩
  | some h =>
    obtain ⟨rfl, other⟩ := h exact
    refine ⟨rfl, hf own fun t same => ?_⟩
    exact Option.some.inj same ▸ other

/-- Two lists of which the same holds as of two schemas. -/
def SameAll (C : Comparison) (K : String → Prop) (list list' : List Schema) : Prop :=
  C.exact → list = list' ∧ ∀ s ∈ list, s.RefersInto K

theorem SameAll.mono {list list' : List Schema} (h : C.SameAll K list list')
    (hsub : ∀ name, K name → K' name) : C.SameAll K' list list' :=
  fun exact => ⟨(h exact).1, fun s hs => ((h exact).2 s hs).mono hsub⟩

theorem sameAll_filterMap {all all' : List (Option Schema)}
    (h : List.Forall₂ (C.Found K) all all') :
    C.SameAll K (all.filterMap id) (all'.filterMap id) := by
  induction h with
  | nil => exact fun _ => ⟨rfl, fun _ hs => by cases hs⟩
  | cons first _ ih =>
    cases first with
    | none => exact ih
    | some first =>
      intro exact
      obtain ⟨rfl, own⟩ := first exact
      obtain ⟨rest, others⟩ := ih exact
      exact ⟨congrArg (_ :: ·) rest, List.forall_mem_cons.mpr ⟨own, others⟩⟩

theorem Found.eq (h : C.Found K found found') (exact : C.exact) : found = found' := by
  cases h with
  | none => rfl
  | some h => exact congrArg some (h exact).1

/-! ### Directives -/

end Comparison

/-- What the types that a directive names leave as it is. -/
structure Schema.Kept (s t : Schema) : Prop where
  ref : t.ref = s.ref
  items : t.items = s.items
  labels : t.labels = s.labels

theorem Schema.Kept.refl (s : Schema) : Kept s s := ⟨rfl, rfl, rfl⟩

theorem Schema.Kept.trans {s t u : Schema} (h : Kept s t) (h' : Kept t u) : Kept s u :=
  ⟨h'.ref.trans h.ref, h'.items.trans h.items, h'.labels.trans h.labels⟩

/-- What a directive leaves of the schema that it is laid over. -/
structure Schema.LaidOver (d : Directive) (detached : Bool) (s t : Schema) : Prop where
  ref : t.ref = (d.text? "$ref").or s.ref
  items : t.items = s.items
  labels : t.labels = s.labels.overlaid d detached

theorem Schema.LaidOver.kept {d : Directive} {detached : Bool} {s t u : Schema}
    (h : LaidOver d detached s t) (h' : Kept t u) : LaidOver d detached s u :=
  ⟨h'.ref.trans h.ref, h'.items.trans h.items, h'.labels.trans h.labels⟩

namespace Comparison

variable {C : Comparison} {K K' : String → Prop} {s s' t t' : Schema}

/-- Both runs keep what they started from. -/
structure Keeps (C : Comparison) (s s' : Schema) (K : String → Prop) (t t' : Schema) : Prop where
  left : s.Kept t
  right : s'.Kept t'
  same : C.Same K t t'

/-- Both runs lay a directive over what they started from. -/
structure LaysOver (C : Comparison) (d : Directive) (detached : Bool) (s s' : Schema)
    (K : String → Prop) (t t' : Schema) : Prop where
  left : s.LaidOver d detached t
  right : s'.LaidOver d detached t'
  same : C.Same K t t'

theorem LaysOver.alike {d : Directive} {detached : Bool} (h : C.LaysOver d detached s s' K t t')
    (hs : C.Alike K s s') : C.Alike K t t' := by
  refine ⟨?_, ?_, h.same⟩
  · have own := hs.isRef
    rw [isRef, isRef] at own ⊢
    rw [h.left.ref, h.right.ref]
    cases d.text? "$ref" with
    | none => simpa using own
    | some path => rfl
  · rw [h.left.items, h.right.items, hs.items]

/-! ### Registries -/

variable {r r' : Registry}

/-- What a schema refers to is the same for both runs. -/
theorem Same.resolve? (h : C.Same K s s') (v : C.Views K r r') (exact : C.exact) :
    r.resolve? s = r'.resolve? s' := by
  obtain ⟨rfl, into⟩ := h exact
  unfold Registry.resolve?
  cases hname : s.refName? with
  | none => rfl
  | some name =>
    exact v exact name (into.of_refName? hname)

/-- So are the types that candidates show for their literals. -/
theorem SameAll.literalType {list list' : List Schema} (h : C.SameAll K list list')
    (v : C.Views K r r') (exact : C.exact) (u : Universe) (t : TypeRef) :
    Schemata.literalType u r list t = Schemata.literalType u r' list' t := by
  obtain ⟨rfl, into⟩ := h exact
  have same (s : Schema) (hs : s ∈ list) : r.literalType? s = r'.literalType? s := by
    have own : C.Same K s s := .refl fun _ => into s hs
    rw [Registry.literalType?, Registry.literalType?, own.resolve? v exact]
  have found : list.findSome? r.literalType? = list.findSome? r'.literalType? := by
    clear h into
    induction list with
    | nil => rfl
    | cons s rest ih =>
      rw [List.findSome?_cons, List.findSome?_cons, same s List.mem_cons_self,
        ih fun s hs => same s (List.mem_cons_of_mem _ hs)]
  rw [Schemata.literalType, Schemata.literalType, found]

theorem Same.list (h : C.Same K s s') : C.SameAll K [s] [s'] := by
  intro exact
  obtain ⟨rfl, into⟩ := h exact
  exact ⟨rfl, fun t ht => List.mem_singleton.mp ht ▸ into⟩

theorem Same.cons (h : C.Same K s s') {list list' : List Schema} (hl : C.SameAll K list list') :
    C.SameAll K (s :: list) (s' :: list') := by
  intro exact
  obtain ⟨rfl, own⟩ := h exact
  obtain ⟨rfl, others⟩ := hl exact
  exact ⟨rfl, List.forall_mem_cons.mpr ⟨own, others⟩⟩

end Comparison

/-! ### Labels -/

theorem Schema.labels_inlined (parent : Schema) (r : Registry) (d : Directive) (s : Schema) :
    (parent.inlined r d s).labels = parent.labels := by
  obtain ⟨_, _, same⟩ := exists_inlined parent r d s
  rw [same]

theorem Schema.labels_completed (u : Universe) (t : TypeRef) (s : Schema) :
    (s.completed u t).labels = s.labels := by
  unfold Schema.completed
  split <;> rfl

theorem Schema.labels_settled (s : Schema) : s.settled.labels = s.labels := by
  rcases exists_settled s with same | ⟨_, _, _, same⟩
  · rw [same]
  · rw [same]

end Schemata
