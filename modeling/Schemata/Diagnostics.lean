import Schemata.Json.Basic
import Schemata.Text.Split

/-!
# Diagnostics

A diagnostic reports a problem of a subject.  Its code fixes how severe it is.  None of them
ends a pass by itself.
-/
namespace Schemata

inductive Severity where
  | info | warning | error
  deriving DecidableEq, Repr

def Severity.name : Severity → String
  | .info => "info"
  | .warning => "warning"
  | .error => "error"

inductive DiagnosticCode where
  | unknownType
  | unknownImplementation
  | customSchemaNotFound
  | coercionFailed
  | invalidDirectiveValue
  | unresolvedPlaceholder
  | duplicateSchemaName
  deriving DecidableEq, Repr, Inhabited

namespace DiagnosticCode

def all : List DiagnosticCode :=
  [.unknownType, .unknownImplementation, .customSchemaNotFound, .coercionFailed,
    .invalidDirectiveValue, .unresolvedPlaceholder, .duplicateSchemaName]

def name : DiagnosticCode → String
  | .unknownType => "UnknownType"
  | .unknownImplementation => "UnknownImplementation"
  | .customSchemaNotFound => "CustomSchemaNotFound"
  | .coercionFailed => "CoercionFailed"
  | .invalidDirectiveValue => "InvalidDirectiveValue"
  | .unresolvedPlaceholder => "UnresolvedPlaceholder"
  | .duplicateSchemaName => "DuplicateSchemaName"

def ofName? (name : String) : Option DiagnosticCode := all.find? (·.name = name)

/-- The short form in reports. -/
def short : DiagnosticCode → String
  | .unknownType => "W001"
  | .unknownImplementation => "W002"
  | .customSchemaNotFound => "W003"
  | .coercionFailed => "W004"
  | .invalidDirectiveValue => "W005"
  | .unresolvedPlaceholder => "W006"
  | .duplicateSchemaName => "E001"

def severity : DiagnosticCode → Severity
  | .duplicateSchemaName => .error
  | _ => .warning

end DiagnosticCode

structure Diagnostic where
  subject : String
  code : DiagnosticCode
  message : String
  context : List String := []
  deriving DecidableEq, Repr, Inhabited

abbrev Diagnostics := List Diagnostic

namespace Diagnostic

def severity (d : Diagnostic) : Severity := d.code.severity

/-- A hint at the name that was perhaps meant. -/
def hint (suggestion : Option String) : List String :=
  (suggestion.map fun name => "did you mean '" ++ name ++ "'?").toList

def unknownType (subject name : String) (suggestion : Option String) : Diagnostic where
  subject := subject
  code := .unknownType
  message := "Type '" ++ name ++ "' is not declared; omitting it"
  context := hint suggestion

def coercionFailed (subject raw reason : String) : Diagnostic where
  subject := subject
  code := .coercionFailed
  message := "Can't convert '" ++ raw ++ "': " ++ reason
  context := ["keeping the raw text"]

/-- The line of the report, and a line for each part of the context. -/
def display (d : Diagnostic) : String :=
  d.context.foldl (fun text line => text ++ "\n  - " ++ line)
    ("[" ++ d.code.short ++ "] " ++ d.severity.name ++ ": " ++ d.message ++ " (" ++ d.subject
      ++ ")")

def toJson (d : Diagnostic) : Json :=
  .obj ([("subject", .str d.subject), ("code", .str d.code.name), ("message", .str d.message)]
    ++ if d.context.isEmpty then [] else [("context", Json.ofStrings d.context)])

end Diagnostic

namespace Diagnostics

def errors (ds : Diagnostics) : Diagnostics := ds.filter (·.severity = .error)

def warnings (ds : Diagnostics) : Diagnostics := ds.filter (·.severity = .warning)

def hasErrors (ds : Diagnostics) : Bool := ds.any (·.severity = .error)

def withCode (ds : Diagnostics) (code : DiagnosticCode) : Diagnostics :=
  ds.filter (·.code = code)

def report (ds : Diagnostics) : String := Text.joined "\n" (ds.map Diagnostic.display)

end Diagnostics

end Schemata
