import Schemata.Config.Basic
import Schemata.Universe.Basic
import Schemata.Json.Printer

/-!
# Mangled names

The name of an occurrence carries its arguments: they follow the simple name between
separators, each mangled in turn.  An occurrence that is already being written is not
written out a second time.  The origin of a name is its package and the decorated name.
-/
namespace Schemata

namespace Mangle

/-- Every occurrence of a character gives way to a text. -/
def replaceChar (c : Char) (replacement : String) (text : String) : String :=
  String.ofList (text.toList.flatMap fun d => if d = c then replacement.toList else [d])

mutual

/-- The qualified name that stands for an occurrence. -/
def occurrenceName : TypeRef → String
  | .named name _ _ => name
  | .array element => occurrenceName element ++ "Array"
  | .placeholder name bounds => (firstName bounds).getD name
  | .wildcard bounds => (firstName bounds).getD "object"

def firstName : List TypeRef → Option String
  | [] => none
  | bound :: _ => some (occurrenceName bound)

end

/-- The arguments of an occurrence, completed from the declared parameters. -/
def effectiveArgs (u : Universe) (t : TypeRef) : List TypeRef :=
  match u.declOf? t with
  | some d => if d.params.isEmpty then t.args else (d.bindingsFor t.args).values
  | none => t.args

/-- A text as it is, and any other value as JSON. -/
def rendered : Json → String
  | .str text => text
  | value => value.compact

/-- One value of a directive, and its key unless it is the usual one. -/
def foldEntry (c : NamingConfig) (entry : String × Json) : String :=
  (if entry.1 = "value" then "" else entry.1 ++ c.generic)
    ++ replaceChar '.' c.inner (rendered entry.2) ++ c.generic

/-- The directives of a value type become part of the name. -/
def foldDirectives (c : NamingConfig) (ds : Directives) : String :=
  String.join (ds.map fun entry =>
    entry.1.displayName
      ++ if entry.2.isEmpty then "" else
        c.generic ++ String.join (entry.2.map (foldEntry c)))

/-- What is compiled in place of an argument. -/
def replaced (c : Config) (arg : TypeRef) : TypeRef :=
  match c.replacement? arg.display with
  | some text => (TypeRef.parse? text).getD arg
  | none => arg

/-- The text of an occurrence and the occurrences that have been written. -/
abbrev Writer := TypeRef → List String → Option (String × List String)

/-- One argument, with what stands before it. -/
def mangleArg (c : Config) (u : Universe) (inner : Writer) (arg : TypeRef)
    (seen : List String) : Option (String × List String) :=
  let folded := if (u.primitiveOf? arg).isSome then foldDirectives c.naming arg.directives else ""
  let arg := replaced c arg
  let text := folded ++ simpleName (occurrenceName arg)
  if seen.contains arg.display then some (text, seen)
  else (inner arg seen).map fun r => (text ++ r.1, r.2)

def mangleArgs (c : Config) (u : Universe) (inner : Writer) :
    List TypeRef → List String → Option (String × List String)
  | [], seen => some ("", seen)
  | [arg], seen => mangleArg c u inner arg seen
  | arg :: rest, seen => do
    let (text, seen) ← mangleArg c u inner arg seen
    let (others, seen) ← mangleArgs c u inner rest seen
    pure (text ++ c.naming.inner ++ others, seen)

/-- What is appended to the name of an occurrence for its arguments; none when the
arguments are nested deeper than `depth`. -/
def mangle (c : Config) (u : Universe) : Nat → Writer
  | 0, _, _ => none
  | depth + 1, t, seen =>
    let seen := t.display :: seen
    match effectiveArgs u t with
    | [] => some ("", seen)
    | args =>
      (mangleArgs c u (mangle c u depth) args seen).map fun r =>
        (c.naming.generic ++ r.1 ++ c.naming.generic, r.2)

mutual

/-- The number of occurrences in an occurrence. -/
def weight : TypeRef → Nat
  | .named _ args _ => weights args + 1
  | .array element => weight element + 1
  | .placeholder _ bounds => weights bounds + 1
  | .wildcard bounds => weights bounds + 1

def weights : List TypeRef → Nat
  | [] => 0
  | t :: rest => weight t + weights rest

end

/-- Every occurrence that mangling can meet stands in the type, in a declared bound or in a
replacement, or is the type of every value; none is entered twice. -/
def depthBound (c : Config) (u : Universe) (t : TypeRef) : Nat :=
  weight t
    + sumOf (fun entry => sumOf (fun p => weights p.bounds) entry.2.params) u.decls
    + sumOf (fun s => ((TypeRef.parse? s.replacement).map weight).getD 0) c.customSchemas
    + 2

/-- The decorated name of an occurrence and its origin. -/
def fullName (c : Config) (u : Universe) (t : TypeRef) (ending : String) :
    Option (String × String) := do
  let qualified := occurrenceName t
  let package := packageOf qualified
  let args ← if u.isEnum t then some "" else
    (mangle c u (depthBound c u t) t []).map Prod.fst
  let name := replaceChar '$' c.naming.inner (simpleName qualified ++ args) ++ ending
  let name := match c.decoratorFor? package with
    | some decorator => decorator.apply name
    | none => name
  pure (name, package ++ "." ++ name)

end Mangle

end Schemata
