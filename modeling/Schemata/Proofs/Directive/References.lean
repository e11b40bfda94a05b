import Schemata.Pass.Request

/-!
# Stated references

A schema directive may state a reference of its own, and an array directive also one for the
items.  Directives in which no key at any depth is that of a reference state none, before and
after they are brought into canonical form.
-/
namespace Schemata

/-- Whether no reference is stated, neither by the directive nor for the items of an array. -/
def Directive.isRefFree (d : Directive) : Bool :=
  (d.text? "$ref").isNone && (d.section? "items").all fun items => (items.text? "$ref").isNone

def Directives.isRefFree (ds : Directives) : Bool :=
  (ds.get? .schema).all Directive.isRefFree && (ds.get? .arraySchema).all Directive.isRefFree

def Decl.isRefFree (d : Decl) : Bool :=
  d.directives.isRefFree && d.members.all fun m => m.directives.isRefFree

def Universe.isRefFree (u : Universe) : Bool := u.decls.all fun entry => entry.2.isRefFree

def Request.isRefFree (r : Request) : Bool := r.element.all fun e => e.directives.isRefFree

theorem Directive.own_of_isRefFree {d : Directive} (h : d.isRefFree = true) :
    d.text? "$ref" = none := by
  rw [isRefFree, Bool.and_eq_true] at h
  exact Option.isNone_iff_eq_none.mp h.1

theorem Directive.items_of_isRefFree {d items : Directive} (h : d.isRefFree = true)
    (hitems : d.section? "items" = some items) : items.text? "$ref" = none := by
  rw [isRefFree, Bool.and_eq_true, hitems] at h
  exact Option.isNone_iff_eq_none.mp h.2

theorem Directives.schema_of_isRefFree {ds : Directives} {d : Directive}
    (h : ds.isRefFree = true) (hd : ds.get? .schema = some d) : d.isRefFree = true := by
  rw [isRefFree, Bool.and_eq_true, hd] at h
  exact h.1

theorem Directives.arraySchema_of_isRefFree {ds : Directives} {d : Directive}
    (h : ds.isRefFree = true) (hd : ds.get? .arraySchema = some d) : d.isRefFree = true := by
  rw [isRefFree, Bool.and_eq_true, hd] at h
  exact h.2

theorem Decl.own_of_isRefFree {d : Decl} (h : d.isRefFree = true) :
    d.directives.isRefFree = true := by
  rw [isRefFree, Bool.and_eq_true] at h
  exact h.1

theorem Decl.member_of_isRefFree {d : Decl} {m : Member} (h : d.isRefFree = true)
    (hm : m ∈ d.members) : m.directives.isRefFree = true := by
  rw [isRefFree, Bool.and_eq_true] at h
  exact List.all_eq_true.mp h.2 m hm

theorem Universe.decl_of_isRefFree {u : Universe} (h : u.isRefFree = true) {t : TypeRef}
    {d : Decl} (declared : u.declOf? t = some d) : d.isRefFree = true := by
  obtain ⟨name, _, hget⟩ := Option.bind_eq_some_iff.mp declared
  exact List.all_eq_true.mp h (name, d) (Assoc.mem_of_get? hget)

theorem Request.element_of_isRefFree {r : Request} {e : Element} (h : r.isRefFree = true)
    (he : r.element = some e) : e.directives.isRefFree = true := by
  rw [isRefFree, he] at h
  exact h

/-! ### Keys of references -/

/-- The keys under which references are written, before and after normalization. -/
def isRefKey (key : String) : Bool := key = "$ref" || key = "ref"

mutual

/-- Whether no key of the value at any depth is that of a reference. -/
def Json.lacksRefKeys : Json → Bool
  | .arr items => Json.itemsLackRefKeys items
  | .obj members => Json.membersLackRefKeys members
  | _ => true

def Json.itemsLackRefKeys : List Json → Bool
  | [] => true
  | value :: rest => value.lacksRefKeys && Json.itemsLackRefKeys rest

def Json.membersLackRefKeys : List (String × Json) → Bool
  | [] => true
  | (key, value) :: rest =>
    !isRefKey key && value.lacksRefKeys && Json.membersLackRefKeys rest

end

namespace Directive

/-- Whether no key of the directive at any depth is that of a reference. -/
def lacksRefKeys (d : Directive) : Bool := Json.membersLackRefKeys d

theorem lacksRefKeys_iff {d : Directive} : d.lacksRefKeys = true ↔
    ∀ entry ∈ d, isRefKey entry.1 = false ∧ entry.2.lacksRefKeys = true := by
  induction d with
  | nil => simp [lacksRefKeys, Json.membersLackRefKeys]
  | cons entry rest ih =>
    rw [lacksRefKeys] at ih ⊢
    simp only [Json.membersLackRefKeys, Bool.and_eq_true, ih, Bool.not_eq_true',
      List.forall_mem_cons]

theorem get?_refKey {d : Directive} {key : String} (hkey : isRefKey key = true)
    (h : ∀ entry ∈ d, isRefKey entry.1 = false) : d.get? key = none := by
  cases hget : d.get? key with
  | none => rfl
  | some value =>
    have hnot := h _ (Assoc.mem_of_get? hget)
    rw [hkey] at hnot
    cases hnot

theorem text?_ref {d : Directive} (h : ∀ entry ∈ d, isRefKey entry.1 = false) :
    d.text? "$ref" = none := by
  rw [text?, get?_refKey (by decide) h]

theorem section?_eq_some {d members : Directive} {key : String}
    (h : d.section? key = some members) : d.get? key = some (.obj members) := by
  unfold section? at h
  split at h
  · rename_i found hfound
    rw [hfound, Option.some.inj h]
  · cases h

/-! ### Normalization

Each step of normalization erases entries or inserts entries under keys of its own, so that
what holds of all entries goes on to hold, if it holds of those. -/

section

/-- The keys under which no reference is looked for, in the directive or one level below. -/
def isPlainKey (key : String) : Bool := !isRefKey key && key ≠ "items" && key ≠ "schema"

variable {ok : String × Json → Prop} (hok : ∀ key value, isPlainKey key = true → ok (key, value))

include hok

theorem forall_mem_insert {d : Directive} (h : ∀ entry ∈ d, ok entry) {key : String}
    (value : Json) (hkey : isPlainKey key = true) : ∀ entry ∈ d.insert key value, ok entry := by
  intro entry hentry
  rcases Assoc.mem_of_mem_insert hentry with old | rfl
  · exact h entry old
  · exact hok key value hkey

theorem forall_mem_rename {d : Directive} (h : ∀ entry ∈ d, ok entry)
    (old new : String) (hkey : isPlainKey new = true) : ∀ entry ∈ d.rename old new, ok entry := by
  unfold rename
  split
  · exact forall_mem_insert hok (fun entry hentry => h entry (Assoc.mem_of_mem_erase hentry)) _ hkey
  · exact h

theorem forall_mem_replace {d : Directive} (h : ∀ entry ∈ d, ok entry) (key : String)
    {f : Json → Option (String × Json)}
    (hf : ∀ value new, f value = some new → isPlainKey new.1 = true) :
    ∀ entry ∈ Canonical.replace d key f, ok entry := by
  have rest : ∀ entry ∈ d.erase key, ok entry :=
    fun entry hentry => h entry (Assoc.mem_of_mem_erase hentry)
  unfold Canonical.replace
  split
  · exact h
  · split
    · rename_i found
      exact forall_mem_insert hok rest _ (hf _ _ found)
    · exact rest

theorem forall_mem_discriminator {d : Directive} (h : ∀ entry ∈ d, ok entry) :
    ∀ entry ∈ Canonical.discriminator d, ok entry := by
  have rest : ∀ entry ∈ (d.erase "discriminatorProperty").erase "discriminatorMapping", ok entry :=
    fun entry hentry => h entry (Assoc.mem_of_mem_erase (Assoc.mem_of_mem_erase hentry))
  unfold Canonical.discriminator
  dsimp only
  split
  · exact rest
  · exact forall_mem_insert hok rest _ (by decide)

theorem forall_mem_schema {d : Directive} (href : ∀ entry, ok entry → isRefKey entry.1 = false)
    (h : ∀ entry ∈ d, ok entry) : ∀ entry ∈ Canonical.schema d, ok entry := by
  have unchanged : Canonical.replace d "ref" Canonical.reference = d := by
    rw [Canonical.replace, get?_refKey (by decide) fun entry hentry => href entry (h entry hentry)]
  have named {value : Json} {new : String × Json} {key : String}
      (hnew : some (key, value) = some new) (hkey : isPlainKey key = true) :
      isPlainKey new.1 = true := by
    cases hnew
    exact hkey
  have access (value : Json) (new : String × Json) (hnew : Canonical.accessMode value = some new) :
      isPlainKey new.1 = true := by
    unfold Canonical.accessMode at hnew
    split at hnew
    · exact named hnew (by decide)
    · split at hnew
      · exact named hnew (by decide)
      · cases hnew
  have additional (value : Json) (new : String × Json)
      (hnew : Canonical.additional value = some new) : isPlainKey new.1 = true := by
    unfold Canonical.additional at hnew
    split at hnew
    · split at hnew
      · exact named hnew (by decide)
      · cases hnew
      · exact named hnew (by decide)
    · exact named hnew (by decide)
  unfold Canonical.schema
  rw [unchanged]
  have h₁ := forall_mem_rename hok h "defaultValue" "default" (by decide)
  have h₂ := forall_mem_rename hok h₁ "allowableValues" "enum" (by decide)
  have h₃ := forall_mem_replace hok h₂ "accessMode" access
  have h₄ := forall_mem_replace hok h₃ "additionalProperties" additional
  have h₅ := forall_mem_discriminator hok h₄
  refine forall_mem_replace hok (forall_mem_replace hok (forall_mem_replace hok h₅ _ ?_) _ ?_) _ ?_
  all_goals exact fun value new hnew => named hnew (by decide)

end

/-- No reference is stated under a key of the directive, or of an object that normalization
takes for the items. -/
def Clear (d : Directive) : Prop :=
  ∀ entry ∈ d, isRefKey entry.1 = false ∧ (isPlainKey entry.1 = false →
    ∀ members, entry.2 = .obj members → ∀ inner ∈ members, isRefKey inner.1 = false)

theorem clear_of_lacksRefKeys {d : Directive} (h : d.lacksRefKeys = true) : d.Clear := by
  intro entry hentry
  obtain ⟨hkey, hvalue⟩ := lacksRefKeys_iff.mp h entry hentry
  refine ⟨hkey, fun _ members hmembers inner hinner => ?_⟩
  rw [hmembers] at hvalue
  exact (lacksRefKeys_iff.mp hvalue inner hinner).1

theorem Clear.isRefFree {d : Directive} (h : d.Clear) : d.isRefFree = true := by
  rw [Directive.isRefFree, Bool.and_eq_true, Option.isNone_iff_eq_none]
  refine ⟨text?_ref fun entry hentry => (h entry hentry).1, ?_⟩
  cases hitems : d.section? "items" with
  | none => rfl
  | some items =>
    have hmem := Assoc.mem_of_get? (section?_eq_some hitems)
    have below : isPlainKey "items" = false := by decide
    exact Option.isNone_iff_eq_none.mpr (text?_ref ((h _ hmem).2 below items rfl))

theorem isRefKey_of_isPlainKey {key : String} (h : isPlainKey key = true) :
    isRefKey key = false := by
  simp only [isPlainKey, Bool.and_eq_true, Bool.not_eq_true'] at h
  exact h.1.1

theorem Clear.schema {d : Directive} (h : d.Clear) : Clear (Canonical.schema d) := by
  refine forall_mem_schema (fun key value hkey => ⟨isRefKey_of_isPlainKey hkey, fun hnot => ?_⟩)
    (fun entry hentry => hentry.1) h
  rw [hkey] at hnot
  cases hnot

theorem Clear.merge {d others : Directive} (h : d.Clear) (ho : others.Clear) :
    Clear (others.foldl (fun m e => Assoc.insertNew m e.1 e.2) d) := by
  induction others generalizing d with
  | nil => exact h
  | cons entry rest ih =>
    rw [List.foldl_cons]
    refine ih ?_ fun e he => ho e (List.mem_cons_of_mem _ he)
    unfold Assoc.insertNew
    split
    · exact h
    · intro e he
      rcases List.mem_append.mp he with old | new
      · exact h e old
      · have same : e = entry := List.mem_singleton.mp new
        exact same ▸ ho entry List.mem_cons_self

theorem Clear.withItems {d : Directive} (h : d.Clear) :
    Clear (match d.get? "schema" with
      | some (.obj members) =>
        if (Canonical.schema members).isEmpty then d.erase "schema"
        else (d.erase "schema").insert "items" (.obj (Canonical.schema members))
      | _ => d.erase "schema") := by
  have rest : Clear (d.erase "schema") :=
    fun entry hentry => h entry (Assoc.mem_of_mem_erase hentry)
  split
  · rename_i members hget
    have below : isPlainKey "schema" = false := by decide
    have inside := (h _ (Assoc.mem_of_get? hget)).2 below members rfl
    have items := forall_mem_schema (fun key value hkey => isRefKey_of_isPlainKey hkey)
      (fun entry hentry => hentry) inside
    split
    · exact rest
    · intro entry hentry
      rcases Assoc.mem_of_mem_insert hentry with old | rfl
      · exact rest entry old
      · have key : isRefKey "items" = false := by decide
        refine ⟨key, fun _ members hmembers => ?_⟩
        cases hmembers
        exact items
  · exact rest

theorem clear_arraySchema {d : Directive} (h : d.lacksRefKeys = true) :
    Clear (Canonical.arraySchema d) := by
  have array : Clear (match d.get? "arraySchema" with
      | some (.obj members) => Canonical.schema members
      | _ => []) := by
    split
    · rename_i members hget
      have inside := (lacksRefKeys_iff.mp h _ (Assoc.mem_of_get? hget)).2
      exact (clear_of_lacksRefKeys inside).schema
    · intro entry hentry
      cases hentry
  have own : Clear (d.erase "arraySchema") :=
    fun entry hentry => clear_of_lacksRefKeys h entry (Assoc.mem_of_mem_erase hentry)
  exact (own.merge fun entry hentry => array entry (List.mem_filter.mp hentry).1).withItems

end Directive

/-- Directives that were written without keys of references state none in canonical form. -/
theorem Directives.isRefFree_normalizeAll {ds : Directives}
    (h : ∀ entry ∈ ds, entry.1 = .schema ∨ entry.1 = .arraySchema → entry.2.lacksRefKeys = true) :
    Directives.isRefFree (Normalizer.standard.normalizeAll ds) = true := by
  have normalized {kind : DirectiveKind} {d : Directive}
      (hd : Assoc.get? (Normalizer.standard.normalizeAll ds) kind = some d) :
      ∃ written, (kind, written) ∈ ds ∧ Normalizer.standard.normalize kind written = d := by
    obtain ⟨entry, hentry, heq⟩ := List.mem_map.mp (Assoc.mem_of_get? hd)
    obtain ⟨rfl, rfl⟩ := Prod.mk.inj heq
    exact ⟨entry.2, hentry, rfl⟩
  rw [Directives.isRefFree, Bool.and_eq_true, Option.all_eq_true, Option.all_eq_true]
  constructor
  · intro d hd
    obtain ⟨written, hwritten, rfl⟩ := normalized hd
    exact (Directive.clear_of_lacksRefKeys (h _ hwritten (.inl rfl))).schema.isRefFree
  · intro d hd
    obtain ⟨written, hwritten, rfl⟩ := normalized hd
    exact (Directive.clear_arraySchema (h _ hwritten (.inr rfl))).isRefFree

/-- Whether no schema or array directive of the declaration is written with a key of a
reference. -/
def Decl.lacksRefKeys (d : Decl) : Bool :=
  (d.directives :: d.members.map Member.directives).all fun ds =>
    ds.all fun entry => !(entry.1 == .schema || entry.1 == .arraySchema) || entry.2.lacksRefKeys

theorem Decl.isRefFree_canonical {d : Decl} (h : d.lacksRefKeys = true) :
    (d.canonical .standard).isRefFree = true := by
  have canonical {ds : Directives} (hds : ds ∈ d.directives :: d.members.map Member.directives) :
      Directives.isRefFree (Normalizer.standard.normalizeAll ds) = true := by
    refine Directives.isRefFree_normalizeAll fun entry hentry hkind => ?_
    have hall := List.all_eq_true.mp (List.all_eq_true.mp h ds hds) entry hentry
    rcases hkind with hkind | hkind <;> simpa [hkind] using hall
  rw [Decl.isRefFree, Bool.and_eq_true]
  refine ⟨canonical List.mem_cons_self, List.all_eq_true.mpr fun m hm => ?_⟩
  obtain ⟨written, hwritten, rfl⟩ := List.mem_map.mp hm
  exact canonical (List.mem_cons_of_mem _ (List.mem_map.mpr ⟨written, hwritten, rfl⟩))

theorem Universe.isRefFree_insert {u : Universe} {d : Decl} (h : u.isRefFree = true)
    (hd : (d.canonical u.normalizer).isRefFree = true) : (u.insert d).isRefFree = true := by
  refine List.all_eq_true.mpr fun entry hentry => ?_
  rcases Assoc.mem_of_mem_insert hentry with old | rfl
  · exact List.all_eq_true.mp h entry old
  · exact hd

/-- A universe of declarations that are written without keys of references states none. -/
theorem Universe.isRefFree_insertAll {ds : List Decl} (h : ∀ d ∈ ds, d.lacksRefKeys = true) :
    ((Universe.initial .standard).insertAll ds).isRefFree = true := by
  have loop (u : Universe) (normalizer : u.normalizer = .standard) (hu : u.isRefFree = true) :
      (u.insertAll ds).isRefFree = true := by
    induction ds generalizing u with
    | nil => exact hu
    | cons d rest ih =>
      refine ih (fun d' hd' => h d' (List.mem_cons_of_mem _ hd')) (u.insert d) normalizer ?_
      refine isRefFree_insert hu ?_
      rw [normalizer]
      exact Decl.isRefFree_canonical (h d List.mem_cons_self)
  exact loop _ rfl (by decide +kernel)

end Schemata
