import Schemata.Text.Split

/-!
# The arguments of the command

Paths and options may stand in any order.  An option takes its value from the rest of its
argument or from the next argument, if that does not look like an option.  After `--` every
argument is a path.
-/
namespace Schemata

namespace CommandLine

/-- What a run is asked for. -/
structure Options where
  inputs : List String := []
  roots : List String := []
  config : Option String := none
  view : Option String := none
  mediaTypes : List String := []
  compact : Bool := false
  deriving DecidableEq, Repr, Inhabited

/-- The options that take a value. -/
inductive Setting where
  | root | config | view | mediaType
  deriving DecidableEq, Repr

/-- How an option is written, and what its value is called. -/
def Setting.usage : Setting → String
  | .root => "--root <ROOTS>"
  | .config => "--config <CONFIG>"
  | .view => "--view <VIEW>"
  | .mediaType => "--media-type <MEDIA_TYPES>"

inductive UsageError where
  | unknown (argument : String)
  | missingValue (option : String)
  | needlessValue (option value : String)
  | repeated (option : String)
  | missingInputs
  deriving DecidableEq, Repr

def UsageError.reason : UsageError → String
  | .unknown argument => "unexpected argument '" ++ argument ++ "' found"
  | .missingValue option =>
    "a value is required for '" ++ option ++ "' but none was supplied"
  | .needlessValue option value =>
    "unexpected value '" ++ value ++ "' for '" ++ option ++ "' found; no more were expected"
  | .repeated option => "the argument '" ++ option ++ "' cannot be used multiple times"
  | .missingInputs => "the following required arguments were not provided:\n  <INPUTS>..."

def usage : String := "Usage: typeschema [OPTIONS] <INPUTS>..."

def UsageError.message (e : UsageError) : String :=
  "error: " ++ e.reason ++ "\n\n" ++ usage ++ "\n\nFor more information, try '--help'.\n"

def help : String :=
  Text.joined "\n"
    ["Compile declared types into OpenAPI component schemas", "", usage, "", "Arguments:",
      "  <INPUTS>...  Declaration files or directories", "", "Options:",
      "  -r, --root <ROOTS>              Type to compile (repeatable; defaults to every "
        ++ "declared record, interface and enum)",
      "  -c, --config <CONFIG>           Configuration file (TOML)",
      "      --view <VIEW>               Active view (qualified name)",
      "      --media-type <MEDIA_TYPES>  Target media type (repeatable)",
      "      --compact                   Print compact JSON",
      "  -h, --help                      Print help", ""]

/-! ### A single argument -/

inductive Argument where
  | path (text : String)
  /-- The value may be left to the next argument. -/
  | setting (s : Setting) (value : Option String)
  | compact
  | help
  /-- Only paths follow. -/
  | ended
  | refused (e : UsageError)
  deriving DecidableEq, Repr

namespace Argument

def shortOption (letter : Char) (rest : List Char) : Argument :=
  let value := match rest with
    | [] => none
    | '=' :: value => some (String.ofList value)
    | value => some (String.ofList value)
  match letter with
  | 'r' => .setting .root value
  | 'c' => .setting .config value
  | 'h' => .help
  | _ => .refused (.unknown (String.ofList ['-', letter]))

/-- An option without a value. -/
def bare (option : String) (plain : Argument) : Option String → Argument
  | none => plain
  | some value => .refused (.needlessValue option value)

def longOption (text : List Char) : Argument :=
  let name := String.ofList (text.takeWhile (· ≠ '='))
  let value := match text.dropWhile (· ≠ '=') with
    | [] => none
    | _ :: value => some (String.ofList value)
  match name with
  | "root" => .setting .root value
  | "config" => .setting .config value
  | "view" => .setting .view value
  | "media-type" => .setting .mediaType value
  | "compact" => bare "--compact" .compact value
  | "help" => bare "--help" .help value
  | _ => .refused (.unknown ("--" ++ name))

def read (text : String) : Argument :=
  match text.toList with
  | ['-', '-'] => .ended
  | '-' :: '-' :: option => longOption option
  | '-' :: letter :: rest => shortOption letter rest
  | _ => .path text

/-- The argument as value of the option before it. -/
def value? : Argument → Option String
  | .path text => some text
  | _ => none

end Argument

/-! ### All arguments -/

namespace Options

def addInput (o : Options) (path : String) : Except UsageError Options :=
  if path = "" then .error (.missingValue "<INPUTS>...")
  else .ok { o with inputs := o.inputs ++ [path] }

/-- Roots and media types add up; the other options may be given once. -/
def set (o : Options) (s : Setting) (value : String) : Except UsageError Options :=
  match s with
  | .root => .ok { o with roots := o.roots ++ [value] }
  | .mediaType => .ok { o with mediaTypes := o.mediaTypes ++ [value] }
  | .config =>
    if o.config.isSome then .error (.repeated s.usage) else .ok { o with config := some value }
  | .view =>
    if o.view.isSome then .error (.repeated s.usage) else .ok { o with view := some value }

def setCompact (o : Options) : Except UsageError Options :=
  if o.compact then .error (.repeated "--compact") else .ok { o with compact := true }

/-- There has to be an input. -/
def finish (o : Options) : Except UsageError Options :=
  if o.inputs.isEmpty then .error .missingInputs else .ok o

end Options

/-- The options of the arguments; none where help is asked for. -/
def parseFrom (o : Options) : List String → Except UsageError (Option Options)
  | [] => some <$> o.finish
  | argument :: rest =>
    match Argument.read argument, rest with
    | .path path, rest => do parseFrom (← o.addInput path) rest
    | .setting s (some value), rest => do parseFrom (← o.set s value) rest
    | .setting s none, next :: rest =>
      match (Argument.read next).value? with
      | some value => do parseFrom (← o.set s value) rest
      | none => .error (.missingValue s.usage)
    | .setting s none, [] => .error (.missingValue s.usage)
    | .compact, rest => do parseFrom (← o.setCompact) rest
    | .help, _ => .ok none
    | .ended, rest => do
      let o ← rest.foldlM Options.addInput o
      some <$> o.finish
    | .refused e, _ => .error e

/-- Options that are accepted name an input. -/
theorem inputs_of_finish {o o' : Options} (h : some <$> o.finish = .ok (some o')) :
    o'.inputs ≠ [] := by
  unfold Options.finish at h
  split at h
  · cases h
  · next hne =>
    cases h
    simpa using hne

theorem inputs_of_parseFrom {arguments : List String} {o o' : Options}
    (h : parseFrom o arguments = .ok (some o')) : o'.inputs ≠ [] := by
  have bound {x : Except UsageError Options} {f : Options → Except UsageError (Option Options)}
      (hx : x >>= f = .ok (some o')) : ∃ a, f a = .ok (some o') := by
    cases x with
    | error e => cases hx
    | ok a => exact ⟨a, hx⟩
  fun_induction parseFrom o arguments with
  | case1 => exact inputs_of_finish h
  | case2 _ _ _ _ _ ih => obtain ⟨a, ha⟩ := bound h; exact ih a ha
  | case3 _ _ _ _ _ _ ih => obtain ⟨a, ha⟩ := bound h; exact ih a ha
  | case4 _ _ _ _ _ _ _ _ ih => obtain ⟨a, ha⟩ := bound h; exact ih a ha
  | case7 _ _ _ _ ih => obtain ⟨a, ha⟩ := bound h; exact ih a ha
  | case9 => obtain ⟨a, ha⟩ := bound h; exact inputs_of_finish ha
  | case5 => cases h
  | case6 => cases h
  | case8 => cases h
  | case10 => cases h

def parse (arguments : List String) : Except UsageError (Option Options) :=
  parseFrom {} arguments

end CommandLine

end Schemata
