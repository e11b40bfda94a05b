import Schemata.Json.Basic

/-!
# Tables of a TOML document

A document is a list of statements: headers that open a table, and assignments into the open
table.  A table is opened by a header once, dotted keys reach only into tables that they made
themselves, and a value is never assigned twice.
-/
namespace Schemata

namespace Toml

/-- Where a table comes from. -/
inductive Origin where
  /-- Its own header. -/
  | header
  /-- A header of a table below it. -/
  | implied
  /-- A dotted key. -/
  | dotted
  deriving DecidableEq, Repr

inductive Node where
  | value (v : Json)
  | table (origin : Origin) (members : List (String × Node))
  /-- A list of tables, the last one first. -/
  | tables (last : List (String × Node)) (earlier : List (List (String × Node)))
  deriving Inhabited

abbrev Members := List (String × Node)

inductive Statement where
  | table (path : List String)
  | nextTable (path : List String)
  | assign (path : List String) (v : Json)

/-- Changes the table behind a key; a missing one is made first. -/
def within (new : Origin) (admits : Origin → Bool) (key : String)
    (change : Origin → Members → Option Members) (ms : Members) : Option Members :=
  match Assoc.get? ms key with
  | none => do
    let inner ← change new []
    pure (Assoc.insert ms key (.table new inner))
  | some (.value _) => none
  | some (.table origin inner) =>
    if admits origin then do
      let inner ← change origin inner
      pure (Assoc.insert ms key (.table origin inner))
    else none
  | some (.tables last earlier) => do
    let last ← change .header last
    pure (Assoc.insert ms key (.tables last earlier))

/-- Assigns a value in a table.  A dotted key ends in a table that a dotted key made. -/
def assign (v : Json) : List String → Origin → Members → Option Members
  | [], _, _ => none
  | [key], _, ms => if Assoc.contains ms key then none else some (Assoc.insert ms key (.value v))
  | key :: rest, _, ms =>
    within .dotted (· ≠ .header) key
      (fun origin inner =>
        match rest with
        | [_] => if origin = .dotted then assign v rest origin inner else none
        | _ => assign v rest origin inner)
      ms

/-- Opens the table of a header. -/
def openTable : List String → Members → Option Members
  | [], _ => none
  | [key], ms =>
    match Assoc.get? ms key with
    | none => some (Assoc.insert ms key (.table .header []))
    | some (.table .implied inner) => some (Assoc.insert ms key (.table .header inner))
    | _ => none
  | key :: rest, ms => within .implied (fun _ => true) key (fun _ => openTable rest) ms

/-- Opens a further table of a list. -/
def openNext : List String → Members → Option Members
  | [], _ => none
  | [key], ms =>
    match Assoc.get? ms key with
    | none => some (Assoc.insert ms key (.tables [] []))
    | some (.tables last earlier) => some (Assoc.insert ms key (.tables [] (last :: earlier)))
    | _ => none
  | key :: rest, ms => within .implied (fun _ => true) key (fun _ => openNext rest) ms

/-- Assigns a value in the table that is open. -/
def assignAt (v : Json) (path : List String) : List String → Members → Option Members
  | [], ms => assign v path .header ms
  | key :: rest, ms =>
    within .implied (fun _ => true) key (fun _ => assignAt v path rest) ms

/-- The open table and all tables so far. -/
structure State where
  here : List String := []
  root : Members := []

def State.next (s : State) : Statement → Option State
  | .table path => (openTable path s.root).map fun root => ⟨path, root⟩
  | .nextTable path => (openNext path s.root).map fun root => ⟨path, root⟩
  | .assign path v => (assignAt v path s.here s.root).map fun root => ⟨s.here, root⟩

mutual

def Node.toJson : Node → Json
  | .value v => v
  | .table _ members => .obj (membersToJson members)
  | .tables last earlier =>
    .arr (.obj (membersToJson last) :: tablesToJson earlier).reverse

def tablesToJson : List (List (String × Node)) → List Json
  | [] => []
  | members :: rest => .obj (membersToJson members) :: tablesToJson rest

def membersToJson : List (String × Node) → List (String × Json)
  | [] => []
  | (key, node) :: rest => (key, node.toJson) :: membersToJson rest

end

/-- The members of a document. -/
def build? (statements : List Statement) : Option (List (String × Json)) :=
  (statements.foldlM State.next {}).map fun s => membersToJson s.root

/-- The members of a table that is written in one line. -/
def buildInline? (assignments : List (List String × Json)) : Option (List (String × Json)) :=
  (assignments.foldlM (fun ms a => assign a.2 a.1 .header ms) []).map membersToJson

end Toml

end Schemata
