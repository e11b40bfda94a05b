import Schemata.Assoc
import Schemata.Sum

/-!
# Keys of association lists

A walk that enters no key twice leaves fewer and fewer keys of an association list.  A list of
pairs whose keys are distinct is one that was made by insertion, and where they are distinct what
stands under a key does not depend on the other pairs, which erasing moves about.
-/
namespace Schemata

/-! ### Lists without what is listed before -/

section

variable {α : Type} [BEq α]

theorem eraseDups_sublist (names : List α) : names.eraseDups.Sublist names := by
  match names with
  | [] => exact .refl _
  | name :: rest =>
    rw [List.eraseDups_cons]
    exact ((eraseDups_sublist _).trans List.filter_sublist).cons_cons name
termination_by names.length
decreasing_by exact Nat.lt_succ_of_le (List.length_filter_le _ _)

variable [LawfulBEq α]

theorem eraseDups_of_nodup {names : List α} (distinct : names.Nodup) :
    names.eraseDups = names := by
  induction names with
  | nil => rfl
  | cons name rest ih =>
    obtain ⟨new, distinct⟩ := List.nodup_cons.mp distinct
    have kept : rest.filter (fun other => !other == name) = rest := by
      refine List.filter_eq_self.mpr fun other hother => ?_
      simpa using fun same : other = name => new (same ▸ hother)
    rw [List.eraseDups_cons, kept, ih distinct]

theorem nodup_eraseDups (names : List α) : names.eraseDups.Nodup := by
  match names with
  | [] => exact List.nodup_nil
  | name :: rest =>
    rw [List.eraseDups_cons, List.nodup_cons]
    refine ⟨fun again => ?_, nodup_eraseDups _⟩
    have kept := (List.mem_filter.mp ((eraseDups_sublist _).subset again)).2
    simp at kept
termination_by names.length
decreasing_by exact Nat.lt_succ_of_le (List.length_filter_le _ _)

/-- A name that is listed already adds nothing. -/
theorem eraseDups_append_cons {known rest : List α} {name : α} (listed : name ∈ known) :
    (known ++ name :: rest).eraseDups = (known ++ rest).eraseDups := by
  rw [List.eraseDups_append, List.eraseDups_append]
  have dropped : (name :: rest).removeAll known = rest.removeAll known := by
    simp [List.removeAll, listed]
  rw [dropped]

/-- Names that are added unless they are listed. -/
theorem foldl_addNew {names added : List α} (distinct : names.Nodup) :
    added.foldl (fun names name => if names.contains name then names else names ++ [name]) names =
      (names ++ added).eraseDups := by
  induction added generalizing names with
  | nil => rw [List.foldl_nil, List.append_nil, eraseDups_of_nodup distinct]
  | cons name rest ih =>
    rw [List.foldl_cons]
    by_cases listed : name ∈ names
    · rw [if_pos (List.contains_iff_mem.mpr listed), ih distinct, eraseDups_append_cons listed]
    · have more : (names ++ [name]).Nodup := by
        refine List.nodup_append.mpr ⟨distinct, by simp, fun old hold _ hname same => listed ?_⟩
        exact List.mem_singleton.mp hname ▸ same ▸ hold
      rw [if_neg (by simpa using listed), ih more, List.append_assoc, List.singleton_append]

/-- Of equally long lists one that repeats nothing is known by what is left of the other. -/
theorem eq_of_eraseDups_eq {names others : List α} (distinct : names.Nodup)
    (long : others.length = names.length) (same : names.eraseDups = others.eraseDups) :
    others = names := by
  rw [eraseDups_of_nodup distinct] at same
  have whole : others.eraseDups = others :=
    (eraseDups_sublist others).eq_of_length (same ▸ long.symm)
  rw [same, whole]

end

namespace Assoc

variable {κ ν : Type} [DecidableEq κ] {m : Assoc κ ν} {seen later : List κ}

/-- How many pairs have keys that were not seen. -/
def unseen (m : Assoc κ ν) (seen : List κ) : Nat :=
  sumOf (fun pair => if pair.1 ∈ seen then 0 else 1) m

theorem unseen_antitone (sub : seen ⊆ later) : m.unseen later ≤ m.unseen seen := by
  refine sumOf_le_sumOf fun pair _ => ?_
  by_cases before : pair.1 ∈ seen
  · simp [before, sub before]
  · rw [if_neg before]
    split
    · exact Nat.zero_le _
    · exact Nat.le_refl _

theorem unseen_lt {key : κ} {value : ν} (hmem : (key, value) ∈ m) (sub : seen ⊆ later)
    (new : key ∉ seen) (met : key ∈ later) : m.unseen later + 1 ≤ m.unseen seen := by
  refine sumOf_add_le_sumOf (fun pair _ => ?_) hmem (by simp [new, met])
  by_cases before : pair.1 ∈ seen
  · simp [before, sub before]
  · rw [if_neg before]
    split
    · exact Nat.zero_le _
    · exact Nat.le_refl _

theorem unseen_le_length (m : Assoc κ ν) (seen : List κ) : m.unseen seen ≤ m.length := by
  induction m with
  | nil => exact Nat.le_refl _
  | cons pair rest ih =>
    rw [unseen, sumOf_cons, List.length_cons, Nat.add_comm]
    refine Nat.add_le_add ih ?_
    split
    · exact Nat.zero_le _
    · exact Nat.le_refl _

theorem mem_keys_insert {key other : κ} {value : ν} :
    other ∈ (m.insert key value).keys ↔ other = key ∨ other ∈ m.keys := by
  rw [keys_insert]
  split
  · rename_i present
    exact ⟨.inr, fun h => h.elim (fun same => same ▸ present) id⟩
  · rw [List.mem_append, List.mem_singleton, or_comm]

theorem mem_keys_foldl_insert {entries : Assoc κ ν} {key : κ}
    (h : key ∈ (entries.foldl (fun m e => m.insert e.1 e.2) m).keys) :
    key ∈ m.keys ∨ key ∈ entries.keys := by
  induction entries generalizing m with
  | nil => exact .inl h
  | cons entry rest ih =>
    rcases ih h with inserted | later
    · refine (mem_keys_insert.mp inserted).symm.imp_right fun same => ?_
      exact same ▸ List.mem_cons_self
    · exact .inr (List.mem_cons_of_mem _ later)

theorem get?_insert (m : Assoc κ ν) (key other : κ) (value : ν) :
    (m.insert key value).get? other = if key = other then some value else m.get? other := by
  split
  · rename_i same
    exact same ▸ get?_insert_same m key value
  · rename_i different
    exact get?_insert_other m key other value different

/-- Under a key stands the value that was inserted there last, or else what stood there before. -/
theorem get?_foldl_insert (pairs : List (κ × ν)) (m : Assoc κ ν) (key : κ) :
    (pairs.foldl (fun m pair => m.insert pair.1 pair.2) m).get? key =
      ((pairs.filter (·.1 = key)).getLast?.map Prod.snd).or (m.get? key) := by
  induction pairs generalizing m with
  | nil => rfl
  | cons pair rest ih =>
    rw [List.foldl_cons, ih, List.filter_cons]
    by_cases same : pair.1 = key
    · subst same
      rw [get?_insert_same, if_pos (decide_eq_true rfl), List.getLast?_cons]
      cases (rest.filter (·.1 = pair.1)).getLast? <;> rfl
    · rw [get?_insert_other _ _ _ _ same, if_neg (by simpa using same)]

/-- To insert what is there changes nothing. -/
theorem insert_of_get? {key : κ} {value : ν} (h : m.get? key = some value) :
    m.insert key value = m := by
  induction m with
  | nil => cases h
  | cons pair rest ih =>
    rw [get?_cons] at h
    rw [insert]
    split
    · rename_i same
      rw [if_pos same] at h
      obtain rfl := Option.some.inj h
      rfl
    · rename_i other
      rw [if_neg other] at h
      rw [ih h]

theorem insert_of_not_mem {key : κ} {value : ν} (new : key ∉ m.keys) :
    m.insert key value = m ++ [(key, value)] := by
  induction m with
  | nil => rfl
  | cons pair rest ih =>
    have other : pair.1 ≠ key := fun same => new (same ▸ List.mem_cons_self)
    rw [insert, if_neg other, ih fun later => new (List.mem_cons_of_mem _ later),
      List.cons_append]

/-- Pairs with different keys are kept as they are. -/
theorem ofList_of_nodup {pairs : List (κ × ν)} (h : (keys pairs).Nodup) :
    ofList pairs = pairs := by
  have loop (rest : List (κ × ν)) (m : Assoc κ ν) (h : (keys (m ++ rest)).Nodup) :
      rest.foldl (fun m pair => insert m pair.1 pair.2) m = m ++ rest := by
    induction rest generalizing m with
    | nil => simp
    | cons pair rest ih =>
      have new : pair.1 ∉ keys m := by
        intro known
        simp only [keys, List.map_append, List.map_cons, List.nodup_append] at h
        exact h.2.2 pair.1 known pair.1 List.mem_cons_self rfl
      rw [List.foldl_cons, insert_of_not_mem new, ih _ (by simpa using h)]
      simp
  exact loop pairs [] h

theorem nodup_keys_ofList (pairs : List (κ × ν)) : (keys (ofList pairs)).Nodup := by
  have loop (rest : List (κ × ν)) (m : Assoc κ ν) (h : (keys m).Nodup) :
      (keys (rest.foldl (fun m pair => insert m pair.1 pair.2) m)).Nodup := by
    induction rest generalizing m with
    | nil => exact h
    | cons pair rest ih => exact ih _ (nodup_keys_insert m pair.1 pair.2 h)
  exact loop pairs [] List.nodup_nil

theorem keys_ofList (pairs : List (κ × ν)) : (ofList pairs).keys = (keys pairs).eraseDups := by
  have loop (rest : List (κ × ν)) (m : Assoc κ ν) (distinct : m.keys.Nodup) :
      keys (rest.foldl (fun m pair => insert m pair.1 pair.2) m) =
        (m.keys ++ keys rest).eraseDups := by
    induction rest generalizing m with
    | nil =>
      change m.keys = (m.keys ++ []).eraseDups
      rw [List.append_nil, eraseDups_of_nodup distinct]
    | cons pair rest ih =>
      rw [List.foldl_cons, ih _ (nodup_keys_insert m pair.1 pair.2 distinct), keys_insert]
      change _ = (m.keys ++ pair.1 :: keys rest).eraseDups
      split
      · rename_i known
        rw [eraseDups_append_cons known]
      · rw [List.append_assoc, List.singleton_append]
  exact loop pairs [] List.nodup_nil

/-- Keys that all stand for the same value. -/
theorem ofList_map_const (names : List κ) (value : ν) :
    ofList (names.map fun key => (key, value)) = names.eraseDups.map fun key => (key, value) := by
  have only : ∀ pair ∈ ofList (names.map fun key => (key, value)), (pair.1, value) = pair := by
    intro pair hpair
    obtain ⟨_, -, rfl⟩ := List.mem_map.mp (mem_of_mem_ofList hpair)
    rfl
  have listed : keys (names.map fun key => (key, value)) = names := by
    rw [keys, List.map_map]
    exact List.map_id' names
  have erased := keys_ofList (names.map fun key => (key, value))
  rw [listed] at erased
  rw [← erased, keys, List.map_map]
  exact ((List.map_congr_left only).trans (List.map_id' _)).symm

/-- What is taken from the pairs of one key is taken from one pair at most. -/
theorem filterMap_of_key {α : Type} {key : κ} {read : κ × ν → Option α} (distinct : m.keys.Nodup)
    (only : ∀ pair, pair.1 ≠ key → read pair = none) :
    m.filterMap read = ((m.get? key).bind fun value => read (key, value)).toList := by
  induction m with
  | nil => rfl
  | cons pair rest ih =>
    obtain ⟨new, distinct⟩ := List.nodup_cons.mp distinct
    rw [List.filterMap_cons, get?_cons]
    by_cases same : pair.1 = key
    · have later : rest.filterMap read = [] := by
        refine List.filterMap_eq_nil_iff.mpr fun other mem => only other fun again => new ?_
        exact same.trans again.symm ▸ List.mem_map_of_mem mem
      subst same
      rw [if_pos rfl, later, Option.bind_some]
      cases read pair <;> rfl
    · rw [if_neg same, only pair same, ih distinct]

/-! ### Erasing -/

theorem erase_perm (m : Assoc κ ν) (key : κ) : (m.erase key).Perm (m.eraseP (·.1 = key)) := by
  induction m with
  | nil => exact .refl _
  | cons pair rest ih =>
    by_cases same : pair.1 = key
    · rw [erase, if_pos same, List.eraseP_cons_of_pos (by simpa using same)]
      cases hlast : rest.getLast? with
      | none => rw [List.getLast?_eq_none_iff.mp hlast]
      | some last =>
        obtain ⟨before, rfl⟩ := List.getLast?_eq_some_iff.mp hlast
        rw [List.dropLast_concat]
        exact (List.perm_append_singleton last before).symm
    · rw [erase, if_neg same, List.eraseP_cons_of_neg (by simpa using same)]
      exact ih.cons pair

theorem nodup_keys_erase {key : κ} (distinct : m.keys.Nodup) : (m.erase key).keys.Nodup := by
  have fewer := ((List.eraseP_sublist (p := fun pair => pair.1 = key)).map Prod.fst).nodup distinct
  exact ((m.erase_perm key).map Prod.fst).nodup_iff.mpr fewer

theorem get?_eq_some_iff {key : κ} {value : ν} (distinct : m.keys.Nodup) :
    m.get? key = some value ↔ (key, value) ∈ m := by
  refine ⟨mem_of_get?, fun hmem => ?_⟩
  induction m with
  | nil => cases hmem
  | cons pair rest ih =>
    obtain ⟨new, distinct⟩ := List.nodup_cons.mp distinct
    rw [get?_cons]
    rcases List.mem_cons.mp hmem with rfl | later
    · exact if_pos rfl
    · have other : pair.1 ≠ key := by
        rintro rfl
        exact new (List.mem_map.mpr ⟨_, later, rfl⟩)
      rw [if_neg other]
      exact ih distinct later

theorem get?_erase_other {key other : κ} (distinct : m.keys.Nodup) (h : key ≠ other) :
    (m.erase key).get? other = m.get? other := by
  ext value
  rw [get?_eq_some_iff (nodup_keys_erase distinct), get?_eq_some_iff distinct,
    (m.erase_perm key).mem_iff, List.mem_eraseP_of_neg (by simpa using Ne.symm h)]

theorem get?_erase_same {key : κ} (distinct : m.keys.Nodup) : (m.erase key).get? key = none := by
  have erased : (m.eraseP (·.1 = key)).map Prod.fst = m.keys.erase key := by
    rw [List.erase_eq_eraseP', keys, List.eraseP_map]
    rfl
  refine Option.eq_none_iff_forall_ne_some.mpr fun value found => ?_
  have left := (m.erase_perm key).mem_iff.mp (mem_of_get? found)
  exact distinct.not_mem_erase (erased ▸ List.mem_map_of_mem left)

theorem get?_erase (distinct : m.keys.Nodup) (key other : κ) :
    (m.erase key).get? other = if key = other then none else m.get? other := by
  split
  · rename_i same
    exact same ▸ get?_erase_same distinct
  · rename_i different
    exact get?_erase_other distinct different

theorem get?_of_perm {n : Assoc κ ν} (perm : m.Perm n) (distinct : m.keys.Nodup) (key : κ) :
    n.get? key = m.get? key := by
  have distinct' : n.keys.Nodup := (perm.map Prod.fst).nodup distinct
  refine Option.ext fun value => ?_
  rw [get?_eq_some_iff distinct, get?_eq_some_iff distinct', perm.mem_iff]

/-- Distinct keys under which the same stands, in whatever order. -/
theorem perm_of_get?_eq {n : Assoc κ ν} (distinct : m.keys.Nodup) (distinct' : n.keys.Nodup)
    (same : ∀ key, m.get? key = n.get? key) : m.Perm n := by
  have pairs {m : Assoc κ ν} (distinct : m.keys.Nodup) : m.Nodup :=
    (List.pairwise_map.mp distinct).imp fun other same => other (congrArg Prod.fst same)
  refine (List.perm_ext_iff_of_nodup (pairs distinct) (pairs distinct')).mpr fun pair => ?_
  rw [← get?_eq_some_iff distinct, ← get?_eq_some_iff distinct', same]

/-! ### Changing -/

theorem keys_modify (m : Assoc κ ν) (key : κ) (f : ν → ν) : (m.modify key f).keys = m.keys := by
  induction m with
  | nil => rfl
  | cons pair rest ih =>
    rw [modify]
    split
    · rfl
    · exact congrArg (List.cons pair.1) ih

theorem get?_modify (m : Assoc κ ν) (key other : κ) (f : ν → ν) :
    (m.modify key f).get? other = if key = other then (m.get? other).map f else m.get? other := by
  induction m with
  | nil => simp [modify]
  | cons pair rest ih =>
    rw [modify]
    split
    · rename_i here
      rw [get?_cons, get?_cons, here]
      split <;> rfl
    · rename_i elsewhere
      rw [get?_cons, get?_cons, ih]
      by_cases same : pair.1 = other
      · rw [if_pos same, if_pos same, if_neg (same ▸ Ne.symm elsewhere)]
      · rw [if_neg same, if_neg same]

theorem modify_id (m : Assoc κ ν) (key : κ) : m.modify key id = m := by
  induction m with
  | nil => rfl
  | cons pair rest ih =>
    rw [modify, ih]
    split <;> rfl

theorem modify_modify (m : Assoc κ ν) (key : κ) (f g : ν → ν) :
    (m.modify key f).modify key g = m.modify key (g ∘ f) := by
  induction m with
  | nil => rfl
  | cons pair rest ih =>
    by_cases same : pair.1 = key
    · simp [modify, same]
    · simp [modify, same, ih]

/-- What is changed after it was inserted might have been changed before. -/
theorem modify_insert (m : Assoc κ ν) (key : κ) (value : ν) (f : ν → ν) :
    (m.insert key value).modify key f = m.insert key (f value) := by
  induction m with
  | nil => simp [insert, modify]
  | cons pair rest ih =>
    by_cases same : pair.1 = key
    · simp [insert, modify, same]
    · simp [insert, modify, same, ih]

/-! ### Pairs that yield to others -/

theorem get?_insertNew (m : Assoc κ ν) (key other : κ) (value : ν) :
    (m.insertNew key value).get? other =
      (m.get? other).or (if key = other then some value else none) := by
  rw [insertNew, contains]
  split
  · rename_i known
    split
    · rename_i same
      subst same
      obtain ⟨old, hold⟩ := Option.isSome_iff_exists.mp known
      rw [hold, Option.some_or]
    · rw [Option.or_none]
  · rw [get?_append]
    rfl

theorem nodup_keys_insertNew {key : κ} {value : ν} (distinct : m.keys.Nodup) :
    (m.insertNew key value).keys.Nodup := by
  unfold insertNew
  split
  · exact distinct
  · rename_i new
    rw [contains_iff_mem_keys] at new
    have last : keys (m ++ [(key, value)]) = m.keys ++ [key] := List.map_append
    rw [last]
    exact List.nodup_append.mpr ⟨distinct, by simp,
      fun old hold _ hkey same => new (List.mem_singleton.mp hkey ▸ same ▸ hold)⟩

/-- What stands under a key before it is tried to insert others, or else the first that is
inserted there. -/
theorem get?_foldl_insertNew (m others : Assoc κ ν) (key : κ) :
    (others.foldl (fun m e => m.insertNew e.1 e.2) m).get? key =
      (m.get? key).or (others.get? key) := by
  induction others generalizing m with
  | nil => simp
  | cons pair rest ih =>
    rw [List.foldl_cons, ih, get?_insertNew, get?_cons, Option.or_assoc]
    split <;> simp

theorem nodup_keys_foldl_insertNew {others : Assoc κ ν} (distinct : m.keys.Nodup) :
    (others.foldl (fun m e => m.insertNew e.1 e.2) m).keys.Nodup := by
  induction others generalizing m with
  | nil => exact distinct
  | cons pair rest ih => exact ih (nodup_keys_insertNew distinct)

theorem get?_filter {keep : κ × ν → Bool} {key : κ} (kept : ∀ value, keep (key, value) = true) :
    get? (m.filter keep) key = m.get? key := by
  induction m with
  | nil => rfl
  | cons pair rest ih =>
    rw [get?_cons, List.filter_cons]
    by_cases same : pair.1 = key
    · obtain rfl := same
      rw [if_pos (kept pair.2), if_pos rfl, get?_cons, if_pos rfl]
    · rw [if_neg same]
      split
      · rw [get?_cons, if_neg same, ih]
      · exact ih

end Assoc

end Schemata
