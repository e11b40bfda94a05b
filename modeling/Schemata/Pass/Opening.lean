import Schemata.Pass.Basic
import Schemata.Pass.Element

/-!
# Opening an occurrence

Before an occurrence is looked at, a directive may put another type in its place, its
wrappers, wildcards and unbound parameters are opened, and the configuration may replace
what is found there.  None of this touches the state of a pass but for its diagnostics.
-/
namespace Schemata

/-- What was found inside the wrappers. -/
structure Opened where
  type : TypeRef
  nullable : Bool := false
  isStream : Bool := false

/-- What is known of the content of a wrapper, seen from outside. -/
def Opened.within (w : Wrapper) (o : Opened) : Opened :=
  match w with
  | .optional => { o with nullable := true }
  | .stream => { o with isStream := true }
  | .single => o

def unresolvedPlaceholder (subject name : String) : Diagnostic :=
  ⟨subject, .unresolvedPlaceholder, "Type parameter '" ++ name ++ "' is unbound; using object", []⟩

namespace TypeRef

mutual

/-- Opens wrappers, and replaces wildcards and parameters by their first bounds. -/
def opened (u : Universe) (subject : String) : TypeRef → Opened × Diagnostics
  | .named name args directives =>
    match u.wrapperOf? (.named name args directives) with
    | some w =>
      let (content, ds) := openedFirst u subject [] args
      (content.within w, ds)
    | none => (⟨.named name args directives, false, false⟩, [])
  | .array element => (⟨.array element, false, false⟩, [])
  | .placeholder name bounds => openedFirst u subject [unresolvedPlaceholder subject name] bounds
  | .wildcard bounds => openedFirst u subject [] bounds

/-- Without a first type any value is meant. -/
def openedFirst (u : Universe) (subject : String) (missing : Diagnostics) :
    List TypeRef → Opened × Diagnostics
  | [] => (⟨.object, false, false⟩, missing)
  | t :: _ => opened u subject t

end

mutual

/-- Opens wrappers only. -/
def unwrapped (u : Universe) : TypeRef → TypeRef
  | .named name args directives =>
    if (u.wrapperOf? (.named name args directives)).isSome then unwrappedFirst u args
    else .named name args directives
  | other => other

def unwrappedFirst (u : Universe) : List TypeRef → TypeRef
  | [] => .object
  | t :: _ => unwrapped u t

end

end TypeRef

namespace Universe

/-- A text that names a declared type. -/
def declaredType? (u : Universe) (text : String) : Option TypeRef :=
  (TypeRef.parse? text).filter fun t => (u.declOf? t).isSome

/-- The element of an array or a collection. -/
def itemType (u : Universe) (t : TypeRef) : TypeRef :=
  let t := t.unwrapped u
  match u.kindOf t with
  | .array element => element
  | .iterable _ => (u.bindings t).values.head?.getD .object
  | _ => .object

/-- A parametric substitute without arguments takes over the bindings of the type that it
stands for. -/
def carryBindings (u : Universe) (target replaced : TypeRef) : TypeRef :=
  match u.declOf? target with
  | none => target
  | some d =>
    if d.params.isEmpty || !target.args.isEmpty then target
    else
      let bindings := u.bindings replaced
      .generic d.name (d.params.map fun p => (bindings.get? p.name).getD p.fallback)

end Universe

/-- The type that a directive puts in the place of another. -/
def overridden (u : Universe) (subject : String) (directive : Option Directive) (t : TypeRef) :
    TypeRef × Diagnostics :=
  match directive with
  | none => (t, [])
  | some d =>
    match d.text? "implementation" with
    | some implementation =>
      match u.declaredType? implementation with
      | some replacement => (replacement, [])
      | none =>
        (t, [⟨subject, .unknownImplementation, "Implementation '" ++ implementation
          ++ "' is not declared; keeping " ++ t.display,
          Diagnostic.hint (u.suggest implementation)⟩])
    | none =>
      match ((d.text? "type").filter (· ≠ "object")).bind Primitive.ofCommonName? with
      | some primitive => (.plain primitive.name, [])
      | none => (t, [])

/-- The text of the type that the configuration puts in the place of another: for the whole
occurrence, or else for its name. -/
def replacementText? (c : Config) (t : TypeRef) : Option String :=
  (c.replacement? t.display).or (t.name?.bind c.replacement?)

/-- The type that the configuration puts in the place of another. -/
def replaced (env : Environment) (subject : String) (t : TypeRef) : TypeRef × Diagnostics :=
  match replacementText? env.config t with
  | none => (t, [])
  | some text =>
    match env.types.declaredType? text with
    | some target => (env.types.carryBindings target t, [])
    | none =>
      (t, [⟨subject, .customSchemaNotFound, "Custom schema '" ++ text ++ "' for " ++ t.display
        ++ " is not declared; ignoring it", []⟩])

/-- An occurrence ready to be looked at. -/
def openOccurrence (env : Environment) (element : Option Element) (t : TypeRef) :
    Opened × Diagnostics :=
  let subject := subjectOf element t
  let (t, first) := overridden env.types subject (element.bind (·.directive? .schema)) t
  let (content, second) := t.opened env.types subject
  let (t, third) := replaced env subject content.type
  ({ content with type := t }, first ++ second ++ third)

end Schemata
