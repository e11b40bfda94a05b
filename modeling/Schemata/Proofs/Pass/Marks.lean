import Schemata.Proofs.Pass.Extensions

/-!
# Marks of extensions

Directives are brought into canonical form when their declaration is inserted, and those of the
element of a request before it is made.  From then on the keys of all extensions have their mark,
which no keyword of a document has, but for those that an array directive states outside of its
inner schemas.
-/
namespace Schemata

open Pass

namespace Directives

/-- The keys of extensions that canonical form takes over from them as they are. -/
def verbatimKeys (ds : Directives) : List String :=
  ((ds.get? .arraySchema).map Directive.verbatimKeys).getD []

variable {ds : Directives}

theorem get?_normalizeAll (n : Normalizer) (ds : Directives) (kind : DirectiveKind) :
    Assoc.get? (n.normalizeAll ds) kind = (ds.get? kind).map (n.normalize kind) := by
  induction ds with
  | nil => rfl
  | cons entry rest ih =>
    have first : n.normalizeAll (entry :: rest) =
        (entry.1, n.normalize entry.1 entry.2) :: n.normalizeAll rest := rfl
    rw [first, Assoc.get?_cons, Assoc.get?_cons, ih]
    split
    · rename_i same
      rw [same, Option.map_some]
    · rfl

theorem normalize_schema (d : Directive) :
    Normalizer.standard.normalize .schema d = Canonical.schema d := rfl

theorem normalize_arraySchema (d : Directive) :
    Normalizer.standard.normalize .arraySchema d = Canonical.arraySchema d := rfl

theorem isExtensionKey_of_normalizeAll (settled : ds.IsSettled) {d : Directive}
    (hd : Assoc.get? (Normalizer.standard.normalizeAll ds) .schema = some d) :
    ∀ key ∈ d.extensionKeys, isExtensionKey key = true := by
  rw [get?_normalizeAll] at hd
  obtain ⟨written, hwritten, rfl⟩ := Option.map_eq_some_iff.mp hd
  intro key hkey
  rw [normalize_schema] at hkey
  have distinct := (settled.members _ (Assoc.mem_of_get? hwritten)).distinct
  exact Canonical.isExtensionKey_of_schema distinct hkey

/-- In canonical form the directives state no other keys. -/
theorem extend_normalizeAll (settled : ds.IsSettled) {K : String → Prop}
    (marked : ∀ key, isExtensionKey key = true → K key)
    (verbatim : ∀ key ∈ ds.verbatimKeys, K key) :
    Directives.Extend K (Normalizer.standard.normalizeAll ds) where
  schema hd key hkey := marked key (isExtensionKey_of_normalizeAll settled hd key hkey)
  array {d} hd := by
    rw [get?_normalizeAll] at hd
    obtain ⟨written, hwritten, rfl⟩ := Option.map_eq_some_iff.mp hd
    rw [normalize_arraySchema]
    have settled' := settled.members _ (Assoc.mem_of_get? hwritten)
    have known (key : String) (h : isExtensionKey key = true ∨ key ∈ written.verbatimKeys) :
        K key := by
      refine h.elim (marked key) fun hkey => verbatim key ?_
      rw [verbatimKeys, hwritten]
      exact hkey
    rintro key (own | items)
    · exact known key (Canonical.marked_or_verbatim_of_own settled' own)
    · exact known key (Canonical.marked_or_verbatim_of_items settled' items)

end Directives

/-! ### Declarations and requests as they are written -/

structure Decl.IsSettled (d : Decl) : Prop where
  own : d.directives.IsSettled
  members : ∀ m ∈ d.members, m.directives.IsSettled

/-- The keys of extensions that canonical form takes over from the members as they are. -/
def Decl.verbatimKeys (d : Decl) : List String :=
  d.members.flatMap fun m => m.directives.verbatimKeys

def Request.IsSettled (r : Request) : Prop := ∀ e, r.element = some e → e.directives.IsSettled

def Request.verbatimKeys (r : Request) : List String :=
  (r.element.map fun e => e.directives.verbatimKeys).getD []

/-- The request with the directives of its element in canonical form. -/
def Request.canonical (n : Normalizer) (r : Request) : Request :=
  { r with element := r.element.map fun e => { e with directives := n.normalizeAll e.directives } }

/-- A declaration is built in, or was inserted. -/
theorem Universe.mem_insertAll {n : Normalizer} {ds : List Decl} {entry : String × Decl}
    (h : entry ∈ ((initial n).insertAll ds).decls) :
    entry.2 ∈ builtIns ∨ ∃ d ∈ ds, entry.2 = d.canonical n := by
  have loop (ds : List Decl) (u : Universe) (normalizer : u.normalizer = n)
      (h : entry ∈ (u.insertAll ds).decls) :
      entry ∈ u.decls ∨ ∃ d ∈ ds, entry.2 = d.canonical n := by
    induction ds generalizing u with
    | nil => exact .inl h
    | cons d ds ih =>
      rcases ih (u.insert d) normalizer h with before | ⟨later, hlater, same⟩
      · refine (Assoc.mem_of_mem_insert before).imp_right ?_
        rintro rfl
        exact ⟨d, List.mem_cons_self, by rw [normalizer]⟩
      · exact .inr ⟨later, List.mem_cons_of_mem _ hlater, same⟩
  refine (loop ds _ rfl h).imp_left fun builtIn => ?_
  obtain ⟨d, hd, rfl⟩ := List.mem_map.mp builtIn
  exact hd

theorem Universe.plain_of_mem_builtIns {d : Decl} (h : d ∈ builtIns) :
    d.directives = [] ∧ d.members = [] := by
  rcases List.mem_append.mp h with value | container
  · obtain ⟨_, -, rfl⟩ := List.mem_map.mp value
    exact ⟨rfl, rfl⟩
  · simp only [containers, List.mem_cons, List.not_mem_nil, or_false] at container
    rcases container with rfl | rfl | rfl | rfl | rfl | rfl <;> exact ⟨rfl, rfl⟩

section

variable {ds : List Decl} {rs : List Request}

/-- The keys that canonical form takes over as they are written. -/
def verbatimKeys (ds : List Decl) (rs : List Request) : List String :=
  ds.flatMap Decl.verbatimKeys ++ rs.flatMap Request.verbatimKeys

theorem extend_canonical (config : Config) (declared : ∀ d ∈ ds, d.IsSettled)
    (requested : ∀ r ∈ rs, r.IsSettled) :
    Environment.Extend (fun key => isExtensionKey key = true ∨ key ∈ verbatimKeys ds rs)
      ⟨(Universe.initial .standard).insertAll ds, config⟩ (rs.map (Request.canonical .standard))
    where
  declared {d type} hd := by
    obtain ⟨name, -, hget⟩ := Option.bind_eq_some_iff.mp hd
    rcases Universe.mem_insertAll (Assoc.mem_of_get? hget) with builtIn | ⟨w, hw, rfl⟩
    · obtain ⟨directives, members⟩ := Universe.plain_of_mem_builtIns builtIn
      dsimp only at directives members
      rw [directives, members]
      exact ⟨fun own hown => (by cases hown), fun m hm => (by cases hm)⟩
    · have settled := declared w hw
      refine ⟨fun own hown key hkey => .inl ?_, fun m hm => ?_⟩
      · exact Directives.isExtensionKey_of_normalizeAll settled.own hown key hkey
      · obtain ⟨member, hmember, rfl⟩ := List.mem_map.mp hm
        refine Directives.extend_normalizeAll (settled.members member hmember) (fun _ => .inl)
          fun key hkey => .inr (List.mem_append_left _ ?_)
        exact List.mem_flatMap.mpr ⟨w, hw, List.mem_flatMap.mpr ⟨member, hmember, hkey⟩⟩
  requested {r e} hr he := by
    obtain ⟨w, hw, rfl⟩ := List.mem_map.mp hr
    obtain ⟨e, written, rfl⟩ := Option.map_eq_some_iff.mp he
    refine Directives.extend_normalizeAll (requested w hw e written) (fun _ => .inl)
      fun key hkey => .inr (List.mem_append_right _ (List.mem_flatMap.mpr ⟨w, hw, ?_⟩))
    rw [Request.verbatimKeys, written]
    exact hkey

end

namespace Pass

variable {ds : List Decl} {config : Config} {rs : List Request} {node : Schema} {key : String}

/-- The key of an extension of a node has its mark and is no keyword, unless an array directive
states it as it is. -/
theorem marked_or_verbatim_of_hasNode (declared : ∀ d ∈ ds, d.IsSettled)
    (requested : ∀ r ∈ rs, r.IsSettled)
    (has : HasNode ⟨(Universe.initial .standard).insertAll ds, config⟩
      (rs.map (Request.canonical .standard)) node)
    (stated : key ∈ Assoc.keys node.facets.extensions) :
    isExtensionKey key = true ∧ (∀ k : Keyword, k.name ≠ key) ∨ key ∈ verbatimKeys ds rs :=
  ((extend_canonical config declared requested).of_hasNode has key stated).imp_left
    fun marked => ⟨marked, Keyword.name_ne_of_isExtensionKey marked⟩

/-- All keys of extensions have their mark. -/
def MarksExtensions (ds : List Decl) (config : Config) (rs : List Request) : Prop :=
  ∀ node, HasNode ⟨(Universe.initial .standard).insertAll ds, config⟩
    (rs.map (Request.canonical .standard)) node →
      ∀ key ∈ Assoc.keys node.facets.extensions, isExtensionKey key = true

/-- The tags of a catalog are internal, and their owner is stated of the items. -/
def taggedCatalog : List Decl :=
  [{ name := "com.acme.Catalog", members :=
      [{ name := "tags", type := .generic "list" [.plain "string"],
         directives := [(.arraySchema, [("extensions", .obj [("internal", .bool true)]),
           ("schema", .obj [("extensions", .obj [("owner", .str "billing")])])])] }] }]

theorem isSettled_taggedCatalog : ∀ d ∈ taggedCatalog, d.IsSettled := by
  intro d hd
  obtain rfl := List.mem_singleton.mp hd
  refine ⟨Directives.isSettled_nil, fun m hm => ?_⟩
  obtain rfl := List.mem_singleton.mp hm
  refine ⟨by decide, fun entry hentry => ?_⟩
  obtain rfl := List.mem_singleton.mp hentry
  rfl

/-- A property of a registered schema is a node. -/
theorem hasNode_property {env : Environment} {rs : List Request} {node : Schema}
    (holder property : String)
    (found : ((after env rs).registry.get? holder).bind (fun s =>
      Assoc.get? s.properties property) = some node) : HasNode env rs node := by
  obtain ⟨s, registered, given⟩ := Option.bind_eq_some_iff.mp found
  have inside : node ∈ s.parts :=
    Schema.mem_parts.mpr (.inr (.inl (List.mem_map.mpr ⟨_, Assoc.mem_of_get? given, rfl⟩)))
  exact .inl ⟨_, Assoc.mem_of_get? registered, .part .self inside⟩

/-- That they are internal is said of the array without a mark. -/
theorem hasNode_taggedCatalog : ∃ node,
    HasNode ⟨(Universe.initial .standard).insertAll taggedCatalog, {}⟩
      ([forCatalog].map (Request.canonical .standard)) node ∧
      Assoc.keys node.facets.extensions = ["internal"] := by
  have tags : (((after ⟨(Universe.initial .standard).insertAll taggedCatalog, {}⟩
      ([forCatalog].map (Request.canonical .standard))).registry.get? "Catalog").bind fun s =>
        Assoc.get? s.properties "tags").any (fun node =>
          Assoc.keys node.facets.extensions == ["internal"]) = true := by
    decide +kernel
  obtain ⟨node, found, keys⟩ := (Option.any_eq_true _ _).mp tags
  exact ⟨node, hasNode_property "Catalog" "tags" found, beq_iff_eq.mp keys⟩

theorem marked_or_verbatim_of_hasNode_taggedCatalog : ∃ node,
    HasNode ⟨(Universe.initial .standard).insertAll taggedCatalog, {}⟩
      ([forCatalog].map (Request.canonical .standard)) node ∧
      "internal" ∈ Assoc.keys node.facets.extensions ∧
        (isExtensionKey "internal" = true ∧ (∀ k : Keyword, k.name ≠ "internal") ∨
          "internal" ∈ verbatimKeys taggedCatalog [forCatalog]) := by
  obtain ⟨node, has, keys⟩ := hasNode_taggedCatalog
  have stated : "internal" ∈ Assoc.keys node.facets.extensions := by simp [keys]
  refine ⟨node, has, stated, ?_⟩
  refine marked_or_verbatim_of_hasNode isSettled_taggedCatalog (fun r hr e he => ?_) has stated
  obtain rfl := List.mem_singleton.mp hr
  cases he

theorem not_marksExtensions_taggedCatalog : ¬ MarksExtensions taggedCatalog {} [forCatalog] := by
  intro marks
  obtain ⟨node, has, keys⟩ := hasNode_taggedCatalog
  have marked := marks node has "internal" (by simp [keys])
  revert marked
  decide

end Pass

end Schemata
