import Schemata.Json.Decode
import Schemata.Proofs.Assoc

/-!
# Settled values

A value that was settled once has no repeated keys left, and settling it again changes nothing;
neither does settling anything that is part of it.  So it is with every value that a document can
hold, which besides equals itself.
-/
namespace Schemata

namespace Json

/-- Nothing in the value has a key twice. -/
def IsSettled (value : Json) : Prop := value.settle = value

theorem settleMembers_eq_map (members : List (String × Json)) :
    settleMembers members = members.map fun m => (m.1, m.2.settle) := by
  induction members with
  | nil => rfl
  | cons member rest ih => rw [settleMembers, ih, List.map_cons]

theorem settleItems_eq_map (items : List Json) : settleItems items = items.map settle := by
  induction items with
  | nil => rfl
  | cons item rest ih => rw [settleItems, ih, List.map_cons]

theorem isSettled_arr {items : List Json} (h : ∀ item ∈ items, item.IsSettled) :
    (arr items).IsSettled := by
  rw [IsSettled, settle, settleItems_eq_map, List.map_congr_left h, List.map_id']

theorem isSettled_obj {members : List (String × Json)} (h : ∀ m ∈ members, m.2.IsSettled)
    (distinct : (Assoc.keys members).Nodup) : (obj members).IsSettled := by
  have same : members.map (fun m => (m.1, m.2.settle)) = members := by
    rw [List.map_congr_left (g := id) fun m hm => by rw [h m hm]; rfl, List.map_id]
  rw [IsSettled, settle, settleMembers_eq_map, same, Assoc.ofList_of_nodup distinct]

mutual

theorem isSettled_settle : ∀ value : Json, value.settle.IsSettled
  | .null | .bool _ | .num _ | .str _ => rfl
  | .arr items => isSettled_arr (isSettled_of_mem_settleItems items)
  | .obj members =>
    isSettled_obj
      (fun m hm => isSettled_of_mem_settleMembers members m (Assoc.mem_of_mem_ofList hm))
      (Assoc.nodup_keys_ofList _)

theorem isSettled_of_mem_settleItems :
    ∀ items : List Json, ∀ item ∈ settleItems items, item.IsSettled
  | [] => fun _ h => by cases h
  | first :: rest => fun item h => by
    rcases List.mem_cons.mp h with rfl | later
    · exact isSettled_settle first
    · exact isSettled_of_mem_settleItems rest item later

theorem isSettled_of_mem_settleMembers :
    ∀ members : List (String × Json), ∀ m ∈ settleMembers members, m.2.IsSettled
  | [] => fun _ h => by cases h
  | (key, value) :: rest => fun m h => by
    rcases List.mem_cons.mp h with rfl | later
    · exact isSettled_settle value
    · exact isSettled_of_mem_settleMembers rest m later

end

/-- What stands in a settled object is settled. -/
theorem IsSettled.of_mem_obj {members : List (String × Json)} {m : String × Json}
    (h : (obj members).IsSettled) (hm : m ∈ members) : m.2.IsSettled := by
  have same : Assoc.ofList (settleMembers members) = members := Json.obj.inj h
  rw [← same] at hm
  exact isSettled_of_mem_settleMembers members m (Assoc.mem_of_mem_ofList hm)

theorem IsSettled.distinct {members : List (String × Json)} (h : (obj members).IsSettled) :
    (Assoc.keys members).Nodup := by
  have same : Assoc.ofList (settleMembers members) = members := Json.obj.inj h
  rw [← same]
  exact Assoc.nodup_keys_ofList _

/-! ### Values -/

/-- What a free-form document can hold. -/
inductive IsValue : Json → Prop where
  | null : IsValue .null
  | bool (value : Bool) : IsValue (.bool value)
  | int (value : Int) : IsValue (.num (.int value))
  | double {value : Double} (finite : value.isFinite = true) : IsValue (.num (.double value))
  | str (value : String) : IsValue (.str value)
  | arr {items : List Json} (each : ∀ item ∈ items, IsValue item) : IsValue (.arr items)
  | obj {members : List (String × Json)} (each : ∀ m ∈ members, IsValue m.2)
      (distinct : (Assoc.keys members).Nodup) : IsValue (.obj members)

theorem IsValue.isSettled {value : Json} (h : IsValue value) : value.IsSettled := by
  induction h with
  | null | bool | int | double | str => rfl
  | arr _ ih => exact isSettled_arr ih
  | obj _ distinct ih => exact isSettled_obj ih distinct

theorem eqvItems_self {items : List Json} (each : ∀ item ∈ items, item.eqv item = true) :
    eqvItems items items = true := by
  induction items with
  | nil => rfl
  | cons item rest ih =>
    obtain ⟨first, others⟩ := List.forall_mem_cons.mp each
    rw [eqvItems, first, ih others]
    rfl

theorem eqvMembers_of_get? {members others : List (String × Json)}
    (found : ∀ m ∈ members, Assoc.get? others m.1 = some m.2)
    (each : ∀ m ∈ members, m.2.eqv m.2 = true) : eqvMembers members others = true := by
  induction members with
  | nil => rfl
  | cons member rest ih =>
    obtain ⟨there, elsewhere⟩ := List.forall_mem_cons.mp found
    obtain ⟨first, later⟩ := List.forall_mem_cons.mp each
    rw [eqvMembers, there, ih elsewhere later, Bool.and_true]
    exact first

theorem IsValue.eqv_self {value : Json} (h : IsValue value) : value.eqv value = true := by
  induction h with
  | null => rfl
  | bool value => exact beq_self_eq_true value
  | int value => exact beq_self_eq_true value
  | double finite => exact Double.eqv_refl_of_isFinite _ finite
  | str value => exact beq_self_eq_true value
  | arr _ ih => exact eqvItems_self ih
  | obj _ distinct ih =>
    rw [eqv, beq_self_eq_true, Bool.true_and]
    exact eqvMembers_of_get? (fun m hm => (Assoc.get?_eq_some_iff distinct).mpr hm) ih

theorem IsValue.beq_self {value : Json} (h : IsValue value) : (value == value) = true := h.eqv_self

/-- Where all items can be read, so can the list of them. -/
theorem mapM_eq_some {α β : Type} {items : List α} {read : α → Option β} {f : α → β}
    (each : ∀ item ∈ items, read item = some (f item)) : items.mapM read = some (items.map f) := by
  induction items with
  | nil => rfl
  | cons item rest ih =>
    obtain ⟨first, others⟩ := List.forall_mem_cons.mp each
    rw [List.mapM_cons, first, ih others]
    rfl

/-- A list of values is read as it is. -/
theorem list?_any? {items : List Json} (each : ∀ item ∈ items, IsValue item) :
    list? any? (.arr items) = some items := by
  have read : items.mapM any? = some (items.map id) :=
    mapM_eq_some fun item h => congrArg some (each item h).isSettled
  rw [list?, read, List.map_id]

end Json

end Schemata
