import Schemata.Naming.Mangle

/-!
# Names of schemas

A candidate name belongs to the first origin that asks for it.  Another origin gets the
candidate with a number, or is refused, as the configuration says.  What was assigned once
is assigned again.
-/
namespace Schemata

/-- What a name is computed from. -/
structure NameRequest where
  type : TypeRef
  /-- The name that a directive gives. -/
  explicit : Option String := none
  /-- The qualified name of a stereotype. -/
  stereotype : Option String := none
  /-- The qualified name of the active view. -/
  view : Option String := none

structure NameTable where
  /-- The origin of each assigned name. -/
  origins : Assoc String String := []
  /-- What was assigned to a candidate and its origin. -/
  assigned : Assoc (String × String) String := []
  /-- The last number that was given to a candidate. -/
  suffixes : Assoc String Nat := []
  deriving DecidableEq, Repr, Inhabited

/-- Two origins that ask for one name. -/
structure DuplicateName where
  name : String
  existing : String
  incoming : String
  deriving DecidableEq, Repr

def DuplicateName.message (e : DuplicateName) : String :=
  "Found 2 schemas with same name \"" ++ e.name ++ "\" for types " ++ e.existing ++ " and "
    ++ e.incoming

namespace NameRequest

/-- The simple name of a nested type stands after its last dollar or dot. -/
def nestedSimpleName (qualified : String) : String :=
  simpleName (Mangle.replaceChar '$' "." qualified)

/-- The ending that an active view puts on names. -/
def viewEnding (r : NameRequest) (c : Config) : String :=
  match r.view with
  | some view => c.naming.generic ++ nestedSimpleName view
  | none => ""

/-- The candidate and the origin of a request. -/
def candidate (r : NameRequest) (c : Config) (u : Universe) : Option (String × String) := do
  let ending := r.viewEnding c
  let (mangled, origin) ← Mangle.fullName c u r.type ending
  match r.explicit, r.stereotype with
  | some name, _ => pure (name, origin)
  | none, some stereotype =>
    pure (Mangle.replaceChar '.' c.naming.inner (nestedSimpleName stereotype ++ ending), origin)
  | none, none => pure (mangled, origin)

end NameRequest

namespace NameTable

def originOf? (t : NameTable) (name : String) : Option String := t.origins.get? name

def size (t : NameTable) : Nat := t.origins.length

def record (t : NameTable) (candidate origin name : String) : NameTable :=
  { t with
    origins := t.origins.insert name origin
    assigned := t.assigned.insert (candidate, origin) name }

/-- The name of a candidate and its origin, with the table after it. -/
def assign (t : NameTable) (c : NamingConfig) (candidate origin : String) :
    Except DuplicateName (String × NameTable) :=
  match t.assigned.get? (candidate, origin) with
  | some name => .ok (name, t)
  | none =>
    match (t.origins.get? candidate).filter (· ≠ origin) with
    | none => .ok (candidate, t.record candidate origin candidate)
    | some existing =>
      if c.duplicates = .error then .error ⟨candidate, existing, origin⟩
      else
        let number := (t.suffixes.get? candidate).getD 0 + 1
        let name := candidate ++ c.generic ++ toString number
        .ok (name, { t with suffixes := t.suffixes.insert candidate number }.record
          candidate origin name)

/-- The name of a request; none when its arguments are nested beyond measure. -/
def compute (t : NameTable) (c : Config) (u : Universe) (r : NameRequest) :
    Option (Except DuplicateName (String × NameTable)) :=
  (r.candidate c u).map fun found => t.assign c.naming found.1 found.2

end NameTable

end Schemata
