import Sidecar.Toml.Text

/-!
# Writing TOML

A document is written as sections of keys with their values (`renderSections`). A string is written
in the plainest form that needs no escapes: in double quotes, then in single quotes, then over
several lines in three double or three single quotes. Only a string that fits none of them is
written with escapes, over several lines if it has line breaks.
-/

namespace Sidecar

namespace Toml

/-- The longest run of a character that begins or continues a run of the given length. -/
def longestRun (c : Char) : Nat → List Char → Nat
  | n, [] => n
  | n, d :: rest => if d = c then longestRun c (n + 1) rest else max n (longestRun c 0 rest)

/-- Is the character a control character that has to be escaped everywhere? -/
def isControl (c : Char) : Bool :=
  (c.toNat < 0x20 && c != '\t' && c != '\n') || c.toNat == 0x7F

/-- The forms in which a string is written. -/
inductive StringForm where
  | basic
  | literal
  | longBasic
  | longLiteral
deriving DecidableEq, Repr

/-- The form for a string. -/
def formOf (cs : List Char) : StringForm :=
  let control := cs.any isControl
  let backslash := cs.contains '\\'
  let newline := cs.contains '\n'
  let doubles := longestRun '"' 0 cs
  let singles := longestRun '\'' 0 cs
  if !control && !backslash && doubles = 0 && !newline then .basic
  else if !control && singles = 0 && !newline then .literal
  else if !control && !backslash && doubles ≤ 2 then .longBasic
  else if !control && singles ≤ 2 then .longLiteral
  else if newline then .longBasic
  else .basic

/-- The upper-case hexadecimal digit of a number below 16. -/
def upperHex (n : Nat) : Char := Char.ofNat (if n < 10 then 48 + n else 55 + n)

/-- The escape of a character, if it has to be escaped. A line break is not where the string goes
over several lines. -/
def escape? (long : Bool) (c : Char) : Option (List Char) :=
  if c = '\x08' then some ['\\', 'b']
  else if c = '\t' then some ['\\', 't']
  else if c = '\n' then if long then none else some ['\\', 'n']
  else if c = '\x0c' then some ['\\', 'f']
  else if c = '\r' then some ['\\', 'r']
  else if c = '\\' then some ['\\', '\\']
  else if isControl c then
    some ['\\', 'u', '0', '0', upperHex (c.toNat / 16), upperHex (c.toNat % 16)]
  else none

/-- The characters of a string with its escapes, after so many double quotes in a row. Over several
lines two in a row stand for themselves, otherwise none. -/
def escapeAll (long : Bool) : Nat → List Char → List Char
  | _, [] => []
  | quotes, c :: rest =>
    if c = '"' then
      if quotes < (if long then 2 else 0) then '"' :: escapeAll long (quotes + 1) rest
      else '\\' :: '"' :: escapeAll long 0 rest
    else
      match escape? long c with
      | some e => e ++ escapeAll long 0 rest
      | none => c :: escapeAll long 0 rest

/-- The line break that stands after the opening quotes where a string has line breaks. -/
def opening (cs : List Char) : List Char := if cs.contains '\n' then ['\n'] else []

/-- Three quotes. -/
def thrice (c : Char) : List Char := [c, c, c]

/-- The characters of a string in a form. -/
def renderAs (form : StringForm) (cs : List Char) : List Char :=
  match form with
  | .basic => '"' :: (escapeAll false 0 cs ++ ['"'])
  | .literal => '\'' :: (cs ++ ['\''])
  | .longBasic => thrice '"' ++ opening cs ++ escapeAll true 0 cs ++ thrice '"'
  | .longLiteral => thrice '\'' ++ opening cs ++ cs ++ thrice '\''

/-- How a string is written. -/
def renderString (cs : List Char) : List Char := renderAs (formOf cs) cs

/-! ## Sections -/

/-- A value that is written on the line of its key. -/
inductive Plain where
  | text (value : String)
  | number (value : Nat)
  | flag (value : Bool)
deriving DecidableEq, Repr

/-- How a value is written. -/
def Plain.render : Plain → List Char
  | text s => renderString s.toList
  | number n => Nat.toDigits 10 n
  | flag b => if b then "true".toList else "false".toList

/-- A table under a header: its name and its entries, all of whose keys need no quotes. -/
structure Section where
  name : String
  entries : List (String × Plain)
deriving DecidableEq, Repr

/-- The line of an entry. -/
def renderEntry (entry : String × Plain) : List Char :=
  entry.1.toList ++ " = ".toList ++ entry.2.render ++ ['\n']

/-- The lines of a section. -/
def Section.render (s : Section) : List Char :=
  '[' :: (s.name.toList ++ [']', '\n'] ++ s.entries.flatMap renderEntry)

/-- A document of sections, with an empty line between two of them. -/
def renderSections : List Section → List Char
  | [] => []
  | [s] => s.render
  | s :: rest => s.render ++ '\n' :: renderSections rest

end Toml

end Sidecar
