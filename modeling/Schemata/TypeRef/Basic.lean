import Schemata.Directive.Basic

/-!
# Type occurrences

An occurrence is a named type with arguments, an array, a type parameter that stands for
itself, or a wildcard with upper bounds.  Substitution replaces type parameters by their
bindings, all at once; what is put in is not looked at again.
-/
namespace Schemata

inductive TypeRef where
  | named (name : String) (args : List TypeRef) (directives : Directives)
  | array (element : TypeRef)
  | placeholder (name : String) (bounds : List TypeRef)
  | wildcard (upperBounds : List TypeRef)
  deriving Repr

/-- What type parameters stand for, in the order of the parameters. -/
abbrev Bindings := Assoc String TypeRef

structure TypeParam where
  name : String
  bounds : List TypeRef := []
  deriving Repr

namespace TypeRef

def plain (name : String) : TypeRef := .named name [] []

def generic (name : String) (args : List TypeRef) : TypeRef := .named name args []

/-- The type that every value has. -/
def object : TypeRef := plain "object"

instance : Inhabited TypeRef := ⟨object⟩

def name? : TypeRef → Option String
  | .named name _ _ => some name
  | _ => none

def args : TypeRef → List TypeRef
  | .named _ args _ => args
  | _ => []

/-- The directives attached to this use of a type. -/
def directives : TypeRef → Directives
  | .named _ _ directives => directives
  | _ => []

mutual

/-- The text of an occurrence: of its bounds a wildcard shows the first. -/
def write : TypeRef → List Char
  | .named name [] _ => name.toList
  | .named name args _ => name.toList ++ '<' :: writeArgs args ++ ['>']
  | .array element => write element ++ ['[', ']']
  | .placeholder name _ => name.toList
  | .wildcard bounds => '?' :: writeBound bounds

def writeArgs : List TypeRef → List Char
  | [] => []
  | [arg] => write arg
  | arg :: rest => write arg ++ ',' :: writeArgs rest

def writeBound : List TypeRef → List Char
  | [] => []
  | bound :: _ => " extends ".toList ++ write bound

end

def display (t : TypeRef) : String := String.ofList t.write

mutual

/-- Replaces type parameters by their bindings. -/
def substitute (bindings : Bindings) : TypeRef → TypeRef
  | .named name args directives => .named name (substituteAll bindings args) directives
  | .array element => .array (substitute bindings element)
  | .placeholder name bounds => (bindings.get? name).getD (.placeholder name bounds)
  | .wildcard bounds => .wildcard (substituteAll bindings bounds)

def substituteAll (bindings : Bindings) : List TypeRef → List TypeRef
  | [] => []
  | t :: rest => substitute bindings t :: substituteAll bindings rest

end

mutual

/-- Turns bare mentions of the parameters into placeholders; what stands below a
placeholder is left as it is. -/
def withPlaceholders (params : List TypeParam) : TypeRef → TypeRef
  | .named name [] directives =>
    match params.find? (·.name = name) with
    | some param => .placeholder name param.bounds
    | none => .named name [] directives
  | .named name args directives => .named name (withPlaceholdersAll params args) directives
  | .array element => .array (withPlaceholders params element)
  | .placeholder name bounds => .placeholder name bounds
  | .wildcard bounds => .wildcard (withPlaceholdersAll params bounds)

def withPlaceholdersAll (params : List TypeParam) : List TypeRef → List TypeRef
  | [] => []
  | t :: rest => withPlaceholders params t :: withPlaceholdersAll params rest

end

theorem substituteAll_eq_map (bindings : Bindings) (ts : List TypeRef) :
    substituteAll bindings ts = ts.map (substitute bindings) := by
  induction ts with
  | nil => rfl
  | cons t rest ih => simp [substituteAll, ih]

theorem withPlaceholdersAll_eq_map (params : List TypeParam) (ts : List TypeRef) :
    withPlaceholdersAll params ts = ts.map (withPlaceholders params) := by
  induction ts with
  | nil => rfl
  | cons t rest ih => simp [withPlaceholdersAll, ih]

mutual

/-- Whether the text of the occurrence says all there is to it. -/
def isPlain : TypeRef → Bool
  | .named _ args directives => directives.isEmpty && arePlain args
  | .array element => isPlain element
  | .placeholder _ _ => false
  | .wildcard bounds => bounds.length ≤ 1 && arePlain bounds

def arePlain : List TypeRef → Bool
  | [] => true
  | t :: rest => isPlain t && arePlain rest

end

theorem arePlain_eq_all (ts : List TypeRef) : arePlain ts = ts.all isPlain := by
  induction ts with
  | nil => rfl
  | cons t rest ih => simp [arePlain, ih]

end TypeRef

end Schemata
