import Schemata.Toml.Scalar
import Schemata.Toml.Tree

/-!
# Reading TOML

A text is read line by line into statements, from which the tables are built.  Strings,
arrays and inline tables may span lines or nest; every reader gives back the rest of the
text, and each nested value takes at least a character.
-/
namespace Schemata

namespace Toml

/-- A value with the text that follows it. -/
abbrev Reader (α : Type) := List Char → Option (α × List Char)

def isSpace (c : Char) : Bool := c = ' ' || c = '\t'

def skipSpaces (text : List Char) : List Char := text.dropWhile isSpace

/-- Characters of comments and strings: no control characters but the tabulator. -/
def isTextChar (c : Char) : Bool := c = '\t' || (0x20 ≤ c.toNat && c.toNat ≠ 0x7f)

/-- The rest after an end of line. -/
def newline? : List Char → Option (List Char)
  | '\n' :: rest => some rest
  | '\r' :: '\n' :: rest => some rest
  | _ => none

/-- The rest after a comment, if there is one. -/
def skipComment : List Char → List Char
  | '#' :: rest => rest.dropWhile isTextChar
  | text => text

/-- The rest after what may follow a statement, with the end of its line. -/
def lineEnd? (text : List Char) : Option (List Char) :=
  match skipComment (skipSpaces text) with
  | [] => some []
  | rest => newline? rest

/-- Skips blanks, comments and ends of lines; each round takes a line. -/
def skipLines : Nat → List Char → List Char
  | 0, text => text
  | rounds + 1, text =>
    let rest := skipComment (skipSpaces text)
    match newline? rest with
    | some after => skipLines rounds after
    | none => rest

def skipAll (text : List Char) : List Char := skipLines (text.length + 1) text

/-! ### Strings -/

/-- The character of some hexadecimal digits. -/
def hexChar? (digits : List Char) : Option Char := do
  let n ← digits.foldlM (fun n c => (Json.hexValue? c).map (16 * n + ·)) 0
  if n.isValidChar then some (Char.ofNat n) else none

def codePoint? (width : Nat) (rest : List Char) : Option (Char × List Char) :=
  let digits := rest.take width
  if digits.length = width then (hexChar? digits).map (·, rest.drop width) else none

/-- The character of an escape, after its backslash. -/
def escape? : Reader Char
  | 'b' :: rest => some ('\x08', rest)
  | 't' :: rest => some ('\t', rest)
  | 'n' :: rest => some ('\n', rest)
  | 'f' :: rest => some ('\x0c', rest)
  | 'r' :: rest => some ('\r', rest)
  | '"' :: rest => some ('"', rest)
  | '\\' :: rest => some ('\\', rest)
  | 'u' :: rest => codePoint? 4 rest
  | 'U' :: rest => codePoint? 8 rest
  | _ => none

/-- The rest of a string of one line, after its opening quote; each round takes a
character. -/
def basicLine : Nat → Reader (List Char)
  | 0, _ => none
  | _ + 1, '"' :: rest => some ([], rest)
  | rounds + 1, '\\' :: rest => do
    let (c, rest) ← escape? rest
    let (cs, rest) ← basicLine rounds rest
    pure (c :: cs, rest)
  | rounds + 1, c :: rest =>
    if isTextChar c then do
      let (cs, rest) ← basicLine rounds rest
      pure (c :: cs, rest)
    else none
  | _ + 1, [] => none

/-- The rest of a string without escapes, after its opening quote. -/
def literalLine (text : List Char) : Option (List Char × List Char) :=
  match text.dropWhile (fun c => isTextChar c && c ≠ '\'') with
  | '\'' :: rest => some (text.takeWhile (fun c => isTextChar c && c ≠ '\''), rest)
  | _ => none

/-- Blanks and ends of lines after a backslash that ends a line. -/
def skipBlankLines : Nat → List Char → List Char
  | 0, text => text
  | rounds + 1, text =>
    match newline? (skipSpaces text) with
    | some rest => skipBlankLines rounds rest
    | none => skipSpaces text

/-- Up to two quotes may stand before the three that close a string. -/
def closing? (quote : Char) (text : List Char) : Option (List Char × List Char) :=
  let quotes := (text.takeWhile (· = quote)).length
  if quotes < 3 then none
  else
    let content := min (quotes - 3) 2
    some (List.replicate content quote, text.drop (content + 3))

/-- The rest of a string of several lines; each round takes a character. -/
def manyLines (quote : Char) (escapes : Bool) : Nat → Reader (List Char)
  | 0, _ => none
  | rounds + 1, text =>
    match closing? quote text with
    | some found => some found
    | none =>
      match newline? text with
      | some rest => do
        let (cs, rest) ← manyLines quote escapes rounds rest
        pure ('\n' :: cs, rest)
      | none =>
        match text with
        | [] => none
        | c :: rest =>
          if c = '\\' && escapes then
            match newline? (skipSpaces rest) with
            | some _ => manyLines quote escapes rounds (skipBlankLines rest.length rest)
            | none => do
              let (c, rest) ← escape? rest
              let (cs, rest) ← manyLines quote escapes rounds rest
              pure (c :: cs, rest)
          else if isTextChar c then do
            let (cs, rest) ← manyLines quote escapes rounds rest
            pure (c :: cs, rest)
          else none

/-- An end of line right after the opening quotes does not count. -/
def dropFirstLine (text : List Char) : List Char := (newline? text).getD text

/-- A string of either kind. -/
def string? : Reader String
  | '"' :: '"' :: '"' :: rest => text ((manyLines '"' true (rest.length + 1)) (dropFirstLine rest))
  | '\'' :: '\'' :: '\'' :: rest =>
    text ((manyLines '\'' false (rest.length + 1)) (dropFirstLine rest))
  | '"' :: rest => text (basicLine (rest.length + 1) rest)
  | '\'' :: rest => text (literalLine rest)
  | _ => none
where
  text (found : Option (List Char × List Char)) : Option (String × List Char) :=
    found.map fun f => (String.ofList f.1, f.2)

/-! ### Keys -/

def isBareKeyChar (c : Char) : Bool := c.isAlphanum || c = '_' || c = '-'

def simpleKey? : Reader String
  | '"' :: rest =>
    (basicLine (rest.length + 1) rest).map fun f => (String.ofList f.1, f.2)
  | '\'' :: rest => (literalLine rest).map fun f => (String.ofList f.1, f.2)
  | text =>
    let name := text.takeWhile isBareKeyChar
    if name.isEmpty then none else some (String.ofList name, text.dropWhile isBareKeyChar)

/-- Keys between dots; each round takes a key. -/
def keys? : Nat → Reader (List String)
  | 0, _ => none
  | rounds + 1, text => do
    let (key, rest) ← simpleKey? (skipSpaces text)
    match skipSpaces rest with
    | '.' :: rest =>
      let (others, rest) ← keys? rounds rest
      pure (key :: others, rest)
    | rest => pure ([key], rest)

/-- How deep values may nest, and how long a dotted key may be. -/
def nestingLimit : Nat := 79

def key? (text : List Char) : Option (List String × List Char) :=
  (keys? (text.length + 1) text).filter fun found => found.1.length ≤ nestingLimit

/-! ### Values -/

/-- The values of an array after its opening bracket; each round takes a value. -/
def items? (inner : Reader Json) : Nat → Reader (List Json)
  | 0, _ => none
  | rounds + 1, text =>
    match skipAll text with
    | ']' :: rest => some ([], rest)
    | rest => do
      let (value, rest) ← inner rest
      match skipAll rest with
      | ',' :: rest =>
        let (others, rest) ← items? inner rounds rest
        pure (value :: others, rest)
      | ']' :: rest => pure ([value], rest)
      | _ => none

/-- A key, its mark and its value. -/
def assignment? (inner : Reader Json) (text : List Char) :
    Option ((List String × Json) × List Char) := do
  let (path, rest) ← key? text
  match rest with
  | '=' :: rest =>
    let (value, rest) ← inner (skipSpaces rest)
    pure ((path, value), rest)
  | _ => none

/-- The assignments of an inline table; each round takes one. -/
def assignments? (inner : Reader Json) : Nat → Reader (List (List String × Json))
  | 0, _ => none
  | rounds + 1, text => do
    let (first, rest) ← assignment? inner text
    match skipSpaces rest with
    | ',' :: rest =>
      let (others, rest) ← assignments? inner rounds rest
      pure (first :: others, rest)
    | '}' :: rest => pure ([first], rest)
    | _ => none

/-- An inline table after its opening brace. -/
def inlineTable? (inner : Reader Json) (text : List Char) : Option (Json × List Char) :=
  match skipSpaces text with
  | '}' :: rest => some (.obj [], rest)
  | rest => do
    let (assignments, rest) ← assignments? inner (rest.length + 1) rest
    let members ← buildInline? assignments
    pure (.obj members, rest)

/-- A scalar that is no string; a date may be followed by a time after a blank. -/
def scalar? (text : List Char) : Option (Json × List Char) :=
  let word := text.takeWhile isScalarChar
  let rest := text.dropWhile isScalarChar
  let late := match rest with
    | ' ' :: after => (dateThenTime? .written word (after.takeWhile isScalarChar)).map
        (dateValue ·, after.dropWhile isScalarChar)
    | _ => none
  late.or ((word? word).map (·, rest))

/-- A value in which arrays and tables nest at most this deep. -/
def value? : Nat → Reader Json
  | depth, text =>
    match depth, text with
    | depth + 1, '[' :: rest =>
      (items? (value? depth) (rest.length + 1) rest).map fun f => (.arr f.1, f.2)
    | depth + 1, '{' :: rest => inlineTable? (value? depth) rest
    | _, '"' :: _ => (string? text).map fun f => (.str f.1, f.2)
    | _, '\'' :: _ => (string? text).map fun f => (.str f.1, f.2)
    | _, _ => scalar? text

/-! ### Documents -/

/-- The path of a header after its opening brackets. -/
def header? (closing : List Char) (text : List Char) : Option (List String × List Char) := do
  let (path, rest) ← key? text
  let rest ← Text.dropBeginning? closing rest
  let rest ← lineEnd? rest
  pure (path, rest)

def statement? (text : List Char) : Option (Statement × List Char) :=
  match text with
  | '[' :: '[' :: rest => (header? [']', ']'] rest).map fun f => (.nextTable f.1, f.2)
  | '[' :: rest => (header? [']'] rest).map fun f => (.table f.1, f.2)
  | _ => do
    let (found, rest) ← assignment? (value? nestingLimit) text
    let rest ← lineEnd? rest
    pure (.assign found.1 found.2, rest)

/-- The statements of a text; each round takes one. -/
def statements? : Nat → List Char → Option (List Statement)
  | 0, _ => none
  | rounds + 1, text =>
    match skipAll text with
    | [] => some []
    | rest => do
      let (first, rest) ← statement? rest
      let others ← statements? rounds rest
      pure (first :: others)

/-- A mark at the beginning tells the order of bytes and nothing else. -/
def dropByteOrderMark : List Char → List Char
  | c :: rest => if c = Char.ofNat 0xfeff then rest else c :: rest
  | [] => []

/-- The value of a document, unless the text is none. -/
def parse? (text : String) : Option Json := do
  let chars := dropByteOrderMark text.toList
  let statements ← statements? (chars.length + 1) chars
  let members ← build? statements
  dated? (.obj members)

end Toml

end Schemata
