import Mathlib.Logic.Basic
import Mathlib.Tactic.Tauto
import Schemata.Proofs.Directive.Settled
import Schemata.Proofs.TypeRef.Acceptance
import Schemata.TypeRef.Codec

/-!
# Type occurrences survive JSON

An occurrence that was read from JSON is written and read again.  It comes back exactly when
every text in what is written is the text of the part that it stands for: the parts whose text
is taken to say all, and is written, have to be textual.  What was read from a text always
comes back.
-/
namespace Schemata

namespace TypeRef

variable {t : TypeRef}

/-! ### What is read from JSON -/

/-- The directives of every occurrence in the type are settled. -/
def IsSettled (t : TypeRef) : Prop := ∀ s ∈ t.occurrences, s.directives.IsSettled

theorem isSettled_iff : t.IsSettled ↔ t.directives.IsSettled ∧ ∀ s ∈ t.parts, s.IsSettled := by
  simp only [IsSettled, occurrences_eq_cons t, occurrencesAll_eq_flatMap, List.forall_mem_cons,
    List.forall_mem_flatMap]

theorem isSettled_of_isTextual (h : t.isTextual = true) : t.IsSettled := by
  induction t using inductionOnParts with
  | step t ih =>
    cases t with
    | named name args directives =>
      simp only [isTextual, Bool.and_eq_true, areTextual_eq_all, List.all_eq_true,
        List.isEmpty_iff] at h
      obtain ⟨⟨named, rfl⟩, textual⟩ := h
      exact isSettled_iff.mpr ⟨Directives.isSettled_nil, fun s hs => ih s hs (textual s hs)⟩
    | array element =>
      simp only [isTextual, Bool.and_eq_true] at h
      refine isSettled_iff.mpr ⟨Directives.isSettled_nil, fun s hs => ih s hs ?_⟩
      rw [List.mem_singleton.mp hs]
      exact h.1
    | placeholder name bounds => cases h
    | wildcard bounds =>
      simp only [isTextual, Bool.and_eq_true, areTextual_eq_all, List.all_eq_true] at h
      exact isSettled_iff.mpr ⟨Directives.isSettled_nil, fun s hs => ih s hs (h.2 s hs)⟩

theorem parse?_eq_some_iff {text : String} : parse? text = some t ↔ parse text = .ok t := by
  rw [parse?]
  cases parse text with
  | error e => simp [Except.toOption]
  | ok found => simp [Except.toOption]

/-- A member is read as the parts that its value can be. -/
theorem mem_partsOf {members : List (String × Json)} {key : String} {part : Part}
    (h : (key, part) ∈ partsOf members) :
    ∃ value, (key, value) ∈ members ∧ part = ⟨ofJson? value, listOfJson? value, value⟩ := by
  induction members with
  | nil => cases h
  | cons member rest ih =>
    rcases List.mem_cons.mp h with same | later
    · cases same
      exact ⟨member.2, List.mem_cons_self, rfl⟩
    · obtain ⟨value, hvalue, rfl⟩ := ih later
      exact ⟨value, List.mem_cons_of_mem _ hvalue, rfl⟩

theorem listPart?_of_get {members : List (String × Json)} {key : String} {ts : List TypeRef}
    (h : listPart? (Assoc.get? (partsOf members) key) = some ts) :
    ts = [] ∨ ∃ value, (key, value) ∈ members ∧ listOfJson? value = some ts := by
  cases found : Assoc.get? (partsOf members) key with
  | none =>
    rw [found] at h
    cases h
    exact .inl rfl
  | some part =>
    rw [found] at h
    obtain ⟨value, hvalue, rfl⟩ := mem_partsOf (Assoc.mem_of_get? found)
    exact .inr ⟨value, hvalue, h⟩

theorem eq_build_of_form? {fields : List String} {parts : List (String × Part)}
    {build : Option TypeRef} (h : form? fields parts build = some t) : build = some t := by
  rw [form?] at h
  split at h
  · exact h
  · cases h

section Members

variable {members : List (String × Json)}
  (lists : ∀ m ∈ members, ∀ ts, listOfJson? m.2 = some ts → ∀ s ∈ ts, s.IsSettled)

include lists

theorem areSettled_listPart? {key : String} {ts : List TypeRef}
    (h : listPart? (Assoc.get? (partsOf members) key) = some ts) : ∀ s ∈ ts, s.IsSettled := by
  rcases listPart?_of_get h with rfl | ⟨value, hvalue, hlist⟩
  · exact fun _ hs => by cases hs
  · exact lists (key, value) hvalue ts hlist

/-- A node is settled if its members are. -/
theorem isSettled_ofParts?
    (types : ∀ m ∈ members, ∀ s, ofJson? m.2 = some s → s.IsSettled)
    (h : ofParts? (partsOf members) = some t) : t.IsSettled := by
  simp only [ofParts?, Option.orElse_eq_orElse, Option.orElse_eq_or, Option.or_eq_some_iff] at h
  rcases h with h | ⟨-, h | ⟨-, h | ⟨-, h⟩⟩⟩ <;> replace h := eq_build_of_form? h <;>
    simp only [Option.bind_eq_bind, Option.bind_eq_some_iff, Option.pure_def,
      Option.some.injEq] at h
  · obtain ⟨part, found, element, htype, rfl⟩ := h
    obtain ⟨value, hvalue, rfl⟩ := mem_partsOf (Assoc.mem_of_get? found)
    refine isSettled_iff.mpr ⟨Directives.isSettled_nil, fun s hs => ?_⟩
    rw [List.mem_singleton.mp hs]
    exact types _ hvalue element htype
  · obtain ⟨name, hname, bounds, hbounds, rfl⟩ := h
    exact isSettled_iff.mpr ⟨Directives.isSettled_nil, areSettled_listPart? lists hbounds⟩
  · obtain ⟨part, found, bounds, hlist, rfl⟩ := h
    obtain ⟨value, hvalue, rfl⟩ := mem_partsOf (Assoc.mem_of_get? found)
    exact isSettled_iff.mpr ⟨Directives.isSettled_nil, lists _ hvalue bounds hlist⟩
  · obtain ⟨name, hname, args, hargs, h⟩ := h
    have inner := areSettled_listPart? lists hargs
    split at h
    · cases h
      exact isSettled_iff.mpr ⟨Directives.isSettled_nil, inner⟩
    · obtain ⟨directives, hdirectives, built⟩ := Option.bind_eq_some_iff.mp h
      cases built
      exact isSettled_iff.mpr ⟨Directives.isSettled_ofJson? hdirectives, inner⟩

end Members

mutual

theorem isSettled_ofJson? : ∀ (value : Json) (t : TypeRef), ofJson? value = some t → t.IsSettled
  | .str text => fun t h => by
    rw [ofJson?, parse?_eq_some_iff, parse_eq_ok_iff] at h
    exact isSettled_of_isTextual h.isTextual
  | .obj members => fun t h =>
    isSettled_ofParts? (areSettled_ofMembers members) (isSettled_ofMembers members) h
  | .null => fun t h => by cases h
  | .bool _ => fun t h => by cases h
  | .num _ => fun t h => by cases h
  | .arr _ => fun t h => by cases h

theorem areSettled_listOfJson? : ∀ (value : Json) (ts : List TypeRef),
    listOfJson? value = some ts → ∀ s ∈ ts, s.IsSettled
  | .arr items => fun ts h => areSettled_itemsOf? items ts h
  | .null => fun t h => by cases h
  | .bool _ => fun t h => by cases h
  | .num _ => fun t h => by cases h
  | .str _ => fun t h => by cases h
  | .obj _ => fun t h => by cases h

theorem areSettled_itemsOf? : ∀ (items : List Json) (ts : List TypeRef),
    itemsOf? items = some ts → ∀ s ∈ ts, s.IsSettled
  | [] => fun ts h => by cases h; exact fun _ hs => by cases hs
  | value :: rest => fun ts h => by
    simp only [itemsOf?, Option.bind_eq_bind, Option.bind_eq_some_iff, Option.pure_def,
      Option.some.injEq] at h
    obtain ⟨t, ht, others, hothers, rfl⟩ := h
    intro s hs
    rcases List.mem_cons.mp hs with rfl | later
    · exact isSettled_ofJson? value s ht
    · exact areSettled_itemsOf? rest others hothers s later

theorem isSettled_ofMembers : ∀ (members : List (String × Json)), ∀ m ∈ members,
    ∀ s, ofJson? m.2 = some s → s.IsSettled
  | [] => fun _ hm => by cases hm
  | (key, value) :: rest => fun m hm => by
    rcases List.mem_cons.mp hm with rfl | later
    · exact isSettled_ofJson? value
    · exact isSettled_ofMembers rest m later

theorem areSettled_ofMembers : ∀ (members : List (String × Json)), ∀ m ∈ members,
    ∀ ts, listOfJson? m.2 = some ts → ∀ s ∈ ts, s.IsSettled
  | [] => fun _ hm => by cases hm
  | (key, value) :: rest => fun m hm => by
    rcases List.mem_cons.mp hm with rfl | later
    · exact areSettled_listOfJson? value
    · exact areSettled_ofMembers rest m later

end

/-! ### Written and read again -/

mutual

/-- Whether every text that is written for a part of the type is the text of that part. -/
def keepsTexts : TypeRef → Bool
  | .named name args directives =>
    if isPlain (.named name args directives) then isTextual (.named name args directives)
    else keepTexts args
  | .array element =>
    if isPlain element then isTextual (.array element) else keepsTexts element
  | .placeholder _ bounds => keepTexts bounds
  | .wildcard bounds => keepTexts bounds

def keepTexts : List TypeRef → Bool
  | [] => true
  | t :: rest => keepsTexts t && keepTexts rest

end

theorem keepTexts_eq_all (ts : List TypeRef) : keepTexts ts = ts.all keepsTexts := by
  induction ts with
  | nil => rfl
  | cons t rest ih => simp [keepTexts, ih]

/-- A text is read as the occurrence that it was written for exactly if that is textual. -/
theorem parse_display_iff : parse t.display = .ok t ↔ t.isTextual = true := by
  constructor
  · intro h
    exact (parse_eq_ok_iff.mp h).isTextual
  · exact parse_display

theorem ofJson?_display_iff : ofJson? (.str t.display) = some t ↔ t.isTextual = true := by
  rw [ofJson?, parse?_eq_some_iff, parse_display_iff]

/-- A list comes back if every item does. -/
theorem itemsOf?_listToJson_iff (ts : List TypeRef) :
    itemsOf? (listToJson ts) = some ts ↔ ∀ s ∈ ts, ofJson? s.toJson = some s := by
  induction ts with
  | nil => simp [listToJson, itemsOf?]
  | cons t rest ih =>
    rw [List.forall_mem_cons, ← ih, listToJson, itemsOf?]
    simp only [Option.bind_eq_bind, Option.bind_eq_some_iff, Option.pure_def, Option.some.injEq,
      List.cons.injEq]
    constructor
    · rintro ⟨s, hs, others, hothers, rfl, rfl⟩
      exact ⟨hs, hothers⟩
    · rintro ⟨ht, hrest⟩
      exact ⟨t, ht, rest, hrest, rfl, rfl⟩

theorem map_eq_some_iff_of_injective {α β : Type} {f : α → β} (h : Function.Injective f)
    {found : Option α} {a : α} : found.map f = some (f a) ↔ found = some a := by
  cases found with
  | none => simp
  | some b => simp [h.eq_iff]

/-! A node with the members of one form is read as that form, and comes back if the parts in it
do. -/

theorem ofJson?_array_iff {element : TypeRef} :
    ofJson? (.obj [("array", element.toJson)]) = some (.array element) ↔
      ofJson? element.toJson = some element := by
  have read : ofJson? (.obj [("array", element.toJson)]) = (ofJson? element.toJson).map .array := by
    simp [ofJson?, ofParts?, form?, partsOf, Assoc.get?, textPart?, Option.map_eq_bind,
      Function.comp_def]
  rw [read]
  exact map_eq_some_iff_of_injective fun _ _ same => TypeRef.array.inj same

theorem ofJson?_wildcard_iff {bounds : List TypeRef} :
    ofJson? (TypeRef.wildcard bounds).toJson = some (.wildcard bounds) ↔
      itemsOf? (listToJson bounds) = some bounds := by
  have read : ofJson? (TypeRef.wildcard bounds).toJson =
      (itemsOf? (listToJson bounds)).map .wildcard := by
    simp [toJson, ofJson?, ofParts?, form?, partsOf, Assoc.get?, textPart?, listOfJson?,
      Option.map_eq_bind, Function.comp_def]
  rw [read]
  exact map_eq_some_iff_of_injective fun _ _ same => TypeRef.wildcard.inj same

theorem ofJson?_placeholder_iff {name : String} {bounds : List TypeRef} :
    ofJson? (TypeRef.placeholder name bounds).toJson = some (.placeholder name bounds) ↔
      itemsOf? (listToJson bounds) = some bounds := by
  have read : ofJson? (TypeRef.placeholder name bounds).toJson =
      (itemsOf? (listToJson bounds)).map (.placeholder name) := by
    cases bounds with
    | nil =>
      simp [toJson, listToJson, itemsOf?, ofJson?, ofParts?, form?, partsOf, Assoc.get?,
        textPart?, listPart?, Json.asStr?]
    | cons bound rest =>
      simp [toJson, ofJson?, ofParts?, form?, partsOf, Assoc.get?, textPart?, listPart?,
        Json.asStr?, listOfJson?, Option.map_eq_bind, Function.comp_def]
  rw [read]
  exact map_eq_some_iff_of_injective fun _ _ same => (TypeRef.placeholder.inj same).2

theorem ofJson?_named_iff {name : String} {args : List TypeRef} {directives : Directives}
    (settled : directives.IsSettled) (h : isPlain (.named name args directives) = false) :
    ofJson? (TypeRef.named name args directives).toJson = some (.named name args directives) ↔
      itemsOf? (listToJson args) = some args := by
  have back := Directives.ofJson?_toJson settled
  have read : ofJson? (TypeRef.named name args directives).toJson =
      (itemsOf? (listToJson args)).map (.named name · directives) := by
    cases args with
    | nil =>
      cases directives with
      | nil => simp [isPlain, arePlain] at h
      | cons d rest =>
        simp [toJson, h, back, listToJson, itemsOf?, ofJson?, ofParts?, form?, partsOf,
          Assoc.get?, textPart?, listPart?, Json.asStr?]
    | cons arg others =>
      cases directives with
      | nil =>
        simp [toJson, h, ofJson?, ofParts?, form?, partsOf, Assoc.get?, textPart?, listPart?,
          Json.asStr?, listOfJson?, Option.map_eq_bind, Function.comp_def]
      | cons d rest =>
        simp [toJson, h, back, ofJson?, ofParts?, form?, partsOf, Assoc.get?, textPart?,
          listPart?, Json.asStr?, listOfJson?, Option.map_eq_bind, Function.comp_def]
  rw [read]
  exact map_eq_some_iff_of_injective fun _ _ same => (TypeRef.named.inj same).2.1

theorem parts_iff {ts : List TypeRef}
    (h : ∀ s ∈ ts, (ofJson? s.toJson = some s ↔ s.keepsTexts = true)) :
    itemsOf? (listToJson ts) = some ts ↔ keepTexts ts = true := by
  rw [itemsOf?_listToJson_iff, keepTexts_eq_all, List.all_eq_true]
  exact forall₂_congr h

/-- A settled occurrence comes back from JSON exactly if its texts are kept. -/
theorem ofJson?_toJson_iff (settled : t.IsSettled) :
    ofJson? t.toJson = some t ↔ t.keepsTexts = true := by
  induction t using inductionOnParts with
  | step t ih =>
    obtain ⟨own, inner⟩ := isSettled_iff.mp settled
    have parts (s : TypeRef) (hs : s ∈ t.parts) := ih s hs (inner s hs)
    cases t with
    | named name args directives =>
      rw [keepsTexts]
      split
      · rename_i plain
        rw [toJson, if_pos plain]
        exact ofJson?_display_iff
      · rename_i node
        exact (ofJson?_named_iff own (eq_false_of_ne_true node)).trans (parts_iff parts)
    | array element =>
      rw [keepsTexts, toJson]
      split
      · exact ofJson?_display_iff
      · rw [ofJson?_array_iff]
        exact parts element (List.mem_singleton_self _)
    | placeholder name bounds =>
      rw [ofJson?_placeholder_iff, keepsTexts]
      exact parts_iff parts
    | wildcard bounds =>
      rw [ofJson?_wildcard_iff, keepsTexts]
      exact parts_iff parts

/-- All texts in a textual occurrence are texts of its parts. -/
theorem keepsTexts_of_isTextual (h : t.isTextual = true) : t.keepsTexts = true := by
  induction t using inductionOnParts with
  | step t ih =>
    cases t with
    | named name args directives =>
      rw [keepsTexts]
      split
      · exact h
      · simp only [isTextual, Bool.and_eq_true, areTextual_eq_all, List.all_eq_true] at h
        rw [keepTexts_eq_all, List.all_eq_true]
        exact fun s hs => ih s hs (h.2 s hs)
    | array element =>
      rw [keepsTexts]
      split
      · exact h
      · simp only [isTextual, Bool.and_eq_true] at h
        exact ih element (List.mem_singleton_self _) h.1
    | placeholder name bounds => cases h
    | wildcard bounds =>
      simp only [isTextual, Bool.and_eq_true, areTextual_eq_all, List.all_eq_true] at h
      rw [keepsTexts, keepTexts_eq_all, List.all_eq_true]
      exact fun s hs => ih s hs (h.2 s hs)

/-- Whether the text of the occurrence can say its name, and that it is an array. -/
def isSayable : TypeRef → Bool
  | .named name _ _ => isName name
  | .array element => !element.isWildcard
  | _ => true

theorem sayable_iff :
    (∀ s ∈ t.occurrences, s.isSayable = true) ↔
      t.isSayable = true ∧ ∀ part ∈ t.parts, ∀ s ∈ part.occurrences, s.isSayable = true := by
  simp only [occurrences_eq_cons t, occurrencesAll_eq_flatMap, List.forall_mem_cons,
    List.forall_mem_flatMap]

/-- What is plain has a text of its own exactly if everything in it can be said. -/
theorem isTextual_iff :
    t.isTextual = true ↔ t.isPlain = true ∧ ∀ s ∈ t.occurrences, s.isSayable = true := by
  induction t using inductionOnParts with
  | step t ih =>
    have parts : (∀ s ∈ t.parts, s.isTextual = true) ↔
        (∀ s ∈ t.parts, s.isPlain = true) ∧
          ∀ part ∈ t.parts, ∀ s ∈ part.occurrences, s.isSayable = true := by
      rw [← forall₂_and]
      exact forall₂_congr ih
    rw [sayable_iff]
    cases t with
    | named name args directives =>
      have own : (named name args directives).isSayable = isName name := rfl
      simp only [TypeRef.parts] at parts
      simp only [own, isTextual, isPlain, TypeRef.parts, areTextual_eq_all, arePlain_eq_all,
        Bool.and_eq_true, List.all_eq_true, parts]
      tauto
    | array element =>
      have own : (array element).isSayable = !element.isWildcard := rfl
      simp only [TypeRef.parts, List.forall_mem_singleton] at parts
      simp only [own, isTextual, isPlain, TypeRef.parts, List.forall_mem_singleton,
        Bool.and_eq_true, parts]
      tauto
    | placeholder name bounds => simp [isTextual, isPlain]
    | wildcard bounds =>
      have own : (wildcard bounds).isSayable = true := rfl
      simp only [TypeRef.parts] at parts
      simp only [own, isTextual, isPlain, TypeRef.parts, areTextual_eq_all, arePlain_eq_all,
        Bool.and_eq_true, List.all_eq_true, parts]
      tauto

/-- What is read from a value comes back when it is written and read again, and what is plain
comes back from its text. -/
def ComesBack (value : Json) : Prop :=
  ∀ t, ofJson? value = some t →
    ofJson? t.toJson = some t ∧ (t.isPlain = true → parse t.display = .ok t)

/-- When an occurrence comes back. -/
structure Returns (value : Json) (t : TypeRef) : Prop where
  node : ofJson? t.toJson = some t ↔ t.keepsTexts = true
  plain : t.isPlain = true →
    (parse t.display = .ok t ↔ ∀ s ∈ t.occurrences, s.isSayable = true)
  /-- Texts always come back. -/
  text : ∀ written, value = .str written → ComesBack value

theorem returns_of_ofJson? {value : Json} (h : ofJson? value = some t) : Returns value t := by
  constructor
  · exact ofJson?_toJson_iff (isSettled_ofJson? value t h)
  · intro plain
    rw [parse_display_iff, isTextual_iff]
    simp [plain]
  · rintro written rfl s hs
    rw [ofJson?, parse?_eq_some_iff, parse_eq_ok_iff] at hs
    have textual := hs.isTextual
    have settled := isSettled_of_isTextual textual
    exact ⟨(ofJson?_toJson_iff settled).mpr (keepsTexts_of_isTextual textual),
      fun _ => parse_display textual⟩

/-- A list whose items have a directive comes back as a node. -/
theorem returns_of_ofJson?_sizes :
    ofJson? (.obj [("name", .str "list"), ("args", .arr [.obj [("name", .str "string"),
      ("directives", .obj [("size", .obj [("max", .ofNat 8)])])]])]) =
        some (.generic "list" [.named "string" [] [(.size, [("max", .ofNat 8)])]]) ∧
      Returns (.obj [("name", .str "list"), ("args", .arr [.obj [("name", .str "string"),
        ("directives", .obj [("size", .obj [("max", .ofNat 8)])])]])])
        (.generic "list" [.named "string" [] [(.size, [("max", .ofNat 8)])]]) := by
  have read : ofJson? (.obj [("name", .str "list"), ("args", .arr [.obj [("name", .str "string"),
      ("directives", .obj [("size", .obj [("max", .ofNat 8)])])]])]) =
        some (.generic "list" [.named "string" [] [(.size, [("max", .ofNat 8)])]]) := by
    rfl
  exact ⟨read, returns_of_ofJson? read⟩

/-- The text of an array of wildcards is that of a wildcard whose bound is an array. -/
theorem not_comesBack_wildcards :
    ¬ ComesBack (.obj [("array", .obj [("wildcard", .arr [.str "string"])])]) := by
  intro back
  have read : ofJson? (.obj [("array", .obj [("wildcard", .arr [.str "string"])])]) =
      some (.array (.wildcard [.plain "string"])) := by
    rfl
  have textual := parse_display_iff.mp ((back _ read).2 (by decide))
  exact absurd textual (by decide)

end TypeRef

end Schemata
