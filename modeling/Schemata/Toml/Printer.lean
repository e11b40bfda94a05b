import Schemata.Json.Printer
import Schemata.Text.Split

/-!
# Writing TOML

A text is put between plain quotes where it needs no escape.  Otherwise the first of these
that can hold it as it is is taken: single quotes, three plain quotes, three single quotes.
Failing these its characters are escaped.
-/
namespace Schemata

namespace Toml

/-- The longest run of a character. -/
def longestRun (c : Char) : Nat → Nat → List Char → Nat
  | best, current, [] => max best current
  | best, current, d :: rest =>
    if d = c then longestRun c best (current + 1) rest
    else longestRun c (max best current) 0 rest

def runOf (c : Char) (text : List Char) : Nat := longestRun c 0 0 text

/-- Whether a character can only be written as an escape. -/
def needsEscape (c : Char) : Bool :=
  (c.toNat < 0x20 && c ≠ '\t' && c ≠ '\n') || c.toNat = 0x7f

def upperHex (n : Nat) : Char := (Json.hexDigit n).toUpper

/-- A character between plain quotes; an end of line stays where lines are kept. -/
def escaped (keepsLines : Bool) (c : Char) : List Char :=
  if c = '\x08' then ['\\', 'b']
  else if c = '\t' then ['\\', 't']
  else if c = '\n' then (if keepsLines then ['\n'] else ['\\', 'n'])
  else if c = '\x0c' then ['\\', 'f']
  else if c = '\r' then ['\\', 'r']
  else if c = '\\' then ['\\', '\\']
  else if needsEscape c then
    ['\\', 'u', '0', '0', upperHex (c.toNat / 16), upperHex (c.toNat % 16)]
  else [c]

/-- Escapes a text; of a run of quotes every one that follows `allowed` others is escaped. -/
def escapedText (keepsLines : Bool) (allowed : Nat) : Nat → List Char → List Char
  | _, [] => []
  | quotes, c :: rest =>
    if c = '"' then
      if quotes < allowed then '"' :: escapedText keepsLines allowed (quotes + 1) rest
      else '\\' :: '"' :: escapedText keepsLines allowed 0 rest
    else escaped keepsLines c ++ escapedText keepsLines allowed 0 rest

/-- A text that holds several lines begins on a line of its own. -/
def opening (quotes : List Char) (text : List Char) : List Char :=
  if text.contains '\n' then quotes ++ ['\n'] else quotes

def basic (text : List Char) : List Char := '"' :: escapedText false 0 0 text ++ ['"']

def basicLines (text : List Char) : List Char :=
  opening ['"', '"', '"'] text ++ escapedText true 2 0 text ++ ['"', '"', '"']

def literal (text : List Char) : List Char := '\'' :: text ++ ['\'']

def literalLines (text : List Char) : List Char :=
  opening ['\'', '\'', '\''] text ++ text ++ ['\'', '\'', '\'']

/-- A text in the plainest quotes that can hold it. -/
def writeString (s : String) : List Char :=
  let text := s.toList
  let controls := text.any needsEscape
  let lines := text.contains '\n'
  let slashes := text.contains '\\'
  if !controls && !slashes && runOf '"' text = 0 && !lines then basic text
  else if !controls && runOf '\'' text = 0 && !lines then literal text
  else if !controls && !slashes && runOf '"' text ≤ 2 then basicLines text
  else if !controls && runOf '\'' text ≤ 2 then literalLines text
  else if lines then basicLines text
  else basic text

/-- An array of more than one text has a line for each. -/
def writeStrings (texts : List String) : List Char :=
  match texts with
  | [] => ['[', ']']
  | [one] => '[' :: writeString one ++ [']']
  | many =>
    '[' :: many.flatMap (fun t => "\n    ".toList ++ writeString t ++ [',']) ++ ['\n', ']']

def line (key : String) (value : List Char) : List Char :=
  key.toList ++ " = ".toList ++ value ++ ['\n']

def stringLine (key value : String) : List Char := line key (writeString value)

def boolLine (key : String) (value : Bool) : List Char := line key (toString value).toList

/-- A header after an empty line. -/
def header (name : String) (body : List Char) : List Char :=
  '\n' :: '[' :: name.toList ++ [']', '\n'] ++ body

/-- The header of one of several tables of a name. -/
def listHeader (name : String) (body : List Char) : List Char :=
  '\n' :: '[' :: '[' :: name.toList ++ [']', ']', '\n'] ++ body

/-- A list of tables that is empty is written as a value. -/
def emptyLine (key : String) (items : List α) : List Char :=
  if items.isEmpty then line key ['[', ']'] else []

end Toml

end Schemata
