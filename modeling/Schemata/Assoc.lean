/-!
# Association lists in insertion order

Members of an object, bindings, directives, properties and the registry are
lists of pairs in the order in which their keys were first inserted.  A second
insertion keeps the place of the first.  Erasing a key moves the last pair into
the free place.
-/
namespace Schemata

/-- Pairs in the order in which their keys were first inserted. -/
abbrev Assoc (κ ν : Type) := List (κ × ν)

namespace Assoc

variable {κ ν : Type} [DecidableEq κ]

def get? : Assoc κ ν → κ → Option ν
  | [], _ => none
  | (k, v) :: rest, key => if k = key then some v else get? rest key

def keys (m : Assoc κ ν) : List κ := m.map Prod.fst

def values (m : Assoc κ ν) : List ν := m.map Prod.snd

def contains (m : Assoc κ ν) (key : κ) : Bool := (get? m key).isSome

/-- A new key goes to the end, a known one keeps its place. -/
def insert : Assoc κ ν → κ → ν → Assoc κ ν
  | [], key, value => [(key, value)]
  | (k, v) :: rest, key, value =>
    if k = key then (k, value) :: rest else (k, v) :: insert rest key value

/-- A key that is present already keeps its value. -/
def insertNew (m : Assoc κ ν) (key : κ) (value : ν) : Assoc κ ν :=
  if contains m key then m else m ++ [(key, value)]

/-- The last pair takes the place of the erased one. -/
def erase : Assoc κ ν → κ → Assoc κ ν
  | [], _ => []
  | (k, v) :: rest, key =>
    if k = key then
      match rest.getLast? with
      | none => []
      | some last => last :: rest.dropLast
    else (k, v) :: erase rest key

def modify : Assoc κ ν → κ → (ν → ν) → Assoc κ ν
  | [], _, _ => []
  | (k, v) :: rest, key, f =>
    if k = key then (k, f v) :: rest else (k, v) :: modify rest key f

/-- The same keys with the same values, in any order. -/
def sameBy (same : ν → ν → Bool) (m n : Assoc κ ν) : Bool :=
  m.length == n.length && m.all fun pair =>
    match get? n pair.1 with
    | some other => same pair.2 other
    | none => false

/-- Of two values for one key the later wins, in the place of the earlier. -/
def ofList (pairs : List (κ × ν)) : Assoc κ ν :=
  pairs.foldl (fun m pair => insert m pair.1 pair.2) []

@[simp] theorem get?_nil (key : κ) : get? ([] : Assoc κ ν) key = none := rfl

theorem get?_cons (k key : κ) (v : ν) (rest : Assoc κ ν) :
    get? ((k, v) :: rest) key = if k = key then some v else get? rest key := rfl

theorem get?_append (m n : Assoc κ ν) (key : κ) :
    get? (m ++ n) key = (get? m key).or (get? n key) := by
  induction m with
  | nil => rfl
  | cons pair rest ih =>
    rw [List.cons_append, get?_cons, get?_cons, ih]
    split <;> rfl

theorem mem_of_get? {m : Assoc κ ν} {key : κ} {value : ν} (h : get? m key = some value) :
    (key, value) ∈ m := by
  induction m with
  | nil => cases h
  | cons pair rest ih =>
    rw [get?_cons] at h
    split at h
    · rename_i same
      cases h
      rw [← same]
      exact List.mem_cons_self
    · exact List.mem_cons_of_mem _ (ih h)

theorem mem_of_mem_insert {m : Assoc κ ν} {key : κ} {value : ν} {pair : κ × ν}
    (h : pair ∈ insert m key value) : pair ∈ m ∨ pair = (key, value) := by
  induction m with
  | nil => exact .inr (List.mem_singleton.mp h)
  | cons first rest ih =>
    rw [insert] at h
    split at h
    · rename_i same
      rcases List.mem_cons.mp h with rfl | later
      · exact .inr (by rw [same])
      · exact .inl (List.mem_cons_of_mem _ later)
    · rcases List.mem_cons.mp h with rfl | later
      · exact .inl List.mem_cons_self
      · exact (ih later).imp_left (List.mem_cons_of_mem _)

theorem mem_of_mem_ofList {pairs : List (κ × ν)} {pair : κ × ν} (h : pair ∈ ofList pairs) :
    pair ∈ pairs := by
  have loop (rest : List (κ × ν)) (m : Assoc κ ν)
      (hm : pair ∈ rest.foldl (fun m pair => insert m pair.1 pair.2) m) :
      pair ∈ m ∨ pair ∈ rest := by
    induction rest generalizing m with
    | nil => exact .inl hm
    | cons first rest ih =>
      rcases ih (insert m first.1 first.2) hm with inserted | later
      · rcases mem_of_mem_insert inserted with old | rfl
        · exact .inl old
        · exact .inr List.mem_cons_self
      · exact .inr (List.mem_cons_of_mem _ later)
  exact (loop pairs [] h).resolve_left List.not_mem_nil

theorem mem_of_mem_erase {m : Assoc κ ν} {key : κ} {pair : κ × ν} (h : pair ∈ erase m key) :
    pair ∈ m := by
  induction m with
  | nil => exact h
  | cons first rest ih =>
    rw [erase] at h
    split at h
    · split at h
      · cases h
      · rename_i last hlast
        rcases List.mem_cons.mp h with rfl | later
        · exact List.mem_cons_of_mem _ (List.mem_of_getLast? hlast)
        · exact List.mem_cons_of_mem _ ((List.dropLast_subset _) later)
    · rcases List.mem_cons.mp h with rfl | later
      · exact List.mem_cons_self
      · exact List.mem_cons_of_mem _ (ih later)

theorem insert_ne_nil (m : Assoc κ ν) (key : κ) (value : ν) : insert m key value ≠ [] := by
  cases m with
  | nil => exact List.cons_ne_nil _ _
  | cons pair rest =>
    rw [insert]
    split <;> exact List.cons_ne_nil _ _

@[simp] theorem get?_insert_same (m : Assoc κ ν) (key : κ) (value : ν) :
    get? (insert m key value) key = some value := by
  induction m with
  | nil => simp [insert, get?]
  | cons pair rest ih =>
    by_cases h : pair.1 = key <;> simp [insert, get?, h, ih]

theorem get?_insert_other (m : Assoc κ ν) (key other : κ) (value : ν)
    (h : key ≠ other) : get? (insert m key value) other = get? m other := by
  induction m with
  | nil => simp [insert, get?, h]
  | cons pair rest ih =>
    by_cases hk : pair.1 = key
    · simp [insert, get?, hk, h]
    · simp [insert, get?, hk, ih]

theorem keys_insert (m : Assoc κ ν) (key : κ) (value : ν) :
    keys (insert m key value) = if key ∈ keys m then keys m else keys m ++ [key] := by
  induction m with
  | nil => simp [insert, keys]
  | cons pair rest ih =>
    by_cases h : pair.1 = key
    · simp [insert, keys, h]
    · have h' : ¬ key = pair.1 := fun e => h e.symm
      simp only [keys] at ih
      by_cases hm : key ∈ rest.map Prod.fst <;> simp_all [insert, keys]

theorem nodup_keys_insert (m : Assoc κ ν) (key : κ) (value : ν) (h : (keys m).Nodup) :
    (keys (insert m key value)).Nodup := by
  rw [keys_insert]
  split
  · exact h
  · rename_i hm
    refine List.nodup_append.mpr ⟨h, by simp, fun a ha b hb => ?_⟩
    simp only [List.mem_singleton] at hb
    intro e
    exact hm (hb ▸ e ▸ ha)

theorem contains_iff_mem_keys (m : Assoc κ ν) (key : κ) :
    contains m key = true ↔ key ∈ keys m := by
  induction m with
  | nil => simp [contains, keys]
  | cons pair rest ih =>
    have e : key ∈ keys (pair :: rest) ↔ key = pair.1 ∨ key ∈ keys rest := by simp [keys]
    rw [e, ← ih]
    by_cases h : pair.1 = key
    · simp [contains, get?, h]
    · have h' : ¬ key = pair.1 := fun q => h q.symm
      simp [contains, get?, h, h']

end Assoc

end Schemata
