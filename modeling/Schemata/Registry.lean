import Schemata.Schema.Document

/-!
# The registry

Finished schemas by name, in the order of their registration, and the names that are being
defined.  The first schema of a name stays.
-/
namespace Schemata

structure Registry where
  schemas : Assoc String Schema := []
  inProgress : List String := []

namespace Registry

def contains (r : Registry) (name : String) : Bool := r.schemas.contains name

def get? (r : Registry) (name : String) : Option Schema := r.schemas.get? name

def names (r : Registry) : List String := r.schemas.keys

/-- The schema that a reference points to. -/
def resolve? (r : Registry) (s : Schema) : Option Schema := s.refName?.bind r.get?

/-- Adds a schema under a name that is free, and whether it was free. -/
def register (r : Registry) (name : String) (s : Schema) : Bool × Registry :=
  if r.contains name then (false, r)
  else (true, { r with schemas := r.schemas ++ [(name, { s with name := some name })] })

def isInProgress (r : Registry) (name : String) : Bool := r.inProgress.contains name

/-- Marks a name as being defined, and whether it was not yet. -/
def start (r : Registry) (name : String) : Bool × Registry :=
  if r.isInProgress name then (false, r)
  else (true, { r with inProgress := r.inProgress ++ [name] })

def finish (r : Registry) (name : String) : Registry :=
  { r with inProgress := r.inProgress.erase name }

/-- Changes a registered schema in its place. -/
def modify (r : Registry) (name : String) (f : Schema → Schema) : Registry :=
  { r with schemas := Assoc.modify r.schemas name f }

/-- The document of all schemas. -/
def components (r : Registry) : Json :=
  (Json.obj [("components", .obj [("schemas",
    .obj (r.schemas.map fun entry => (entry.1, entry.2.toJson)))])]).settle

@[simp] theorem schemas_finish (r : Registry) (name : String) :
    (r.finish name).schemas = r.schemas := rfl

theorem register_of_contains {r : Registry} {name : String} (s : Schema)
    (h : r.contains name = true) : r.register name s = (false, r) := by
  simp [register, h]

end Registry

end Schemata
