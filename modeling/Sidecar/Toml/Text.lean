/-!
# Strings, keys and white space in TOML

The lexical level of the format, over the characters of a text. Every function takes what it reads
off the front and returns the rest.

A string in three quotes goes over several lines. A line break right after the opening quotes does
not count, one or two quotes in a row belong to the string, and so do up to two quotes right before
the closing ones.
-/

namespace Sidecar

namespace Toml

/-- Is the character a space or a tabulator? -/
def isBlank (c : Char) : Bool := c == ' ' || c == '\t'

/-- May the character stand in a comment? -/
def inComment (c : Char) : Bool := c == '\t' || (0x20 ≤ c.toNat && c.toNat ≠ 0x7F)

/-- May the character stand for itself between double quotes? -/
def inBasic (c : Char) : Bool := inComment c && c != '"' && c != '\\'

/-- May the character stand between single quotes? -/
def inLiteral (c : Char) : Bool := inComment c && c != '\''

/-- May the character stand in a key without quotes? -/
def inBareKey (c : Char) : Bool := c.isAlphanum || c == '-' || c == '_'

/-- Skip blanks. -/
def skipBlanks (text : List Char) : List Char := text.dropWhile isBlank

/-- Take a line break off. -/
def lineBreak? : List Char → Option (List Char)
  | '\n' :: rest => some rest
  | '\r' :: '\n' :: rest => some rest
  | _ => none

/-- Skip a comment, if there is one. -/
def skipComment : List Char → List Char
  | '#' :: rest => rest.dropWhile inComment
  | text => text

/-- Take the end of a line off: blanks, perhaps a comment, and a line break or the end of the
text. -/
def lineEnd? (text : List Char) : Option (List Char) :=
  match skipComment (skipBlanks text) with
  | [] => some []
  | text => lineBreak? text

/-- Skip blanks, line breaks and comments. The flag says that a comment has begun. -/
def skipTrivia : Bool → List Char → List Char
  | _, [] => []
  | _, '\n' :: rest => skipTrivia false rest
  | _, '\r' :: '\n' :: rest => skipTrivia false rest
  | true, c :: rest => if inComment c then skipTrivia true rest else c :: rest
  | false, c :: rest =>
    if isBlank c then skipTrivia false rest
    else if c = '#' then skipTrivia true rest
    else c :: rest

/-! ## Strings -/

/-- The value of a hexadecimal digit. -/
def hexValue? (c : Char) : Option Nat :=
  if '0' ≤ c ∧ c ≤ '9' then some (c.toNat - 48)
  else if 'a' ≤ c ∧ c ≤ 'f' then some (c.toNat - 87)
  else if 'A' ≤ c ∧ c ≤ 'F' then some (c.toNat - 55)
  else none

/-- The character whose code point hexadecimal digits spell. -/
def charOfHex? (ds : List Char) : Option Char := do
  let n ← ds.foldlM (fun n d => (hexValue? d).map (n * 16 + ·)) 0
  if n.isValidChar then some (Char.ofNat n) else none

/-- The character that a one-letter escape names. -/
def escaped? (c : Char) : Option Char :=
  if c = 'b' then some '\x08'
  else if c = 't' then some '\t'
  else if c = 'n' then some '\n'
  else if c = 'f' then some '\x0c'
  else if c = 'r' then some '\r'
  else if c = '"' then some '"'
  else if c = '\\' then some '\\'
  else none

/-- A character read before others. -/
def consChar (c : Option Char) (rest : Option (List Char × List Char)) :
    Option (List Char × List Char) := do
  let (cs, rest) ← rest
  return ((← c) :: cs, rest)

/-- The characters up to the closing double quote. -/
def basic? : List Char → Option (List Char × List Char)
  | '"' :: rest => some ([], rest)
  | '\\' :: 'u' :: a :: b :: c :: d :: rest => consChar (charOfHex? [a, b, c, d]) (basic? rest)
  | '\\' :: 'U' :: a :: b :: c :: d :: e :: f :: g :: h :: rest =>
    consChar (charOfHex? [a, b, c, d, e, f, g, h]) (basic? rest)
  | '\\' :: c :: rest => consChar (escaped? c) (basic? rest)
  | c :: rest => if inBasic c then consChar (some c) (basic? rest) else none
  | [] => none

/-- The characters up to the closing single quote. -/
def literal? : List Char → Option (List Char × List Char)
  | '\'' :: rest => some ([], rest)
  | c :: rest => if inLiteral c then consChar (some c) (literal? rest) else none
  | [] => none

/-- Is there nothing but blanks before the next line break? -/
def restOfLineBlank (text : List Char) : Bool := (lineBreak? (skipBlanks text)).isSome

/-- The characters up to three closing double quotes. The flag says that white space is skipped,
because a line ended with a backslash. -/
def longBasic? : Bool → List Char → Option (List Char × List Char)
  | _, '"' :: '"' :: '"' :: '"' :: '"' :: rest => some (['"', '"'], rest)
  | _, '"' :: '"' :: '"' :: '"' :: rest => some (['"'], rest)
  | _, '"' :: '"' :: '"' :: rest => some ([], rest)
  | _, '"' :: rest => consChar (some '"') (longBasic? false rest)
  | skipping, '\n' :: rest =>
    if skipping then longBasic? true rest else consChar (some '\n') (longBasic? false rest)
  | skipping, '\r' :: '\n' :: rest =>
    if skipping then longBasic? true rest else consChar (some '\n') (longBasic? false rest)
  | _, '\\' :: 'u' :: a :: b :: c :: d :: rest =>
    consChar (charOfHex? [a, b, c, d]) (longBasic? false rest)
  | _, '\\' :: 'U' :: a :: b :: c :: d :: e :: f :: g :: h :: rest =>
    consChar (charOfHex? [a, b, c, d, e, f, g, h]) (longBasic? false rest)
  | _, '\\' :: c :: rest =>
    if restOfLineBlank (c :: rest) then longBasic? true (c :: rest)
    else consChar (escaped? c) (longBasic? false rest)
  | skipping, c :: rest =>
    if skipping && isBlank c then longBasic? true rest
    else if inBasic c then consChar (some c) (longBasic? false rest)
    else none
  | _, [] => none

/-- The characters up to three closing single quotes. -/
def longLiteral? : List Char → Option (List Char × List Char)
  | '\'' :: '\'' :: '\'' :: '\'' :: '\'' :: rest => some (['\'', '\''], rest)
  | '\'' :: '\'' :: '\'' :: '\'' :: rest => some (['\''], rest)
  | '\'' :: '\'' :: '\'' :: rest => some ([], rest)
  | '\'' :: rest => consChar (some '\'') (longLiteral? rest)
  | '\n' :: rest => consChar (some '\n') (longLiteral? rest)
  | '\r' :: '\n' :: rest => consChar (some '\n') (longLiteral? rest)
  | c :: rest => if inLiteral c then consChar (some c) (longLiteral? rest) else none
  | [] => none

/-- Drop a line break at the front, if there is one. -/
def dropLineBreak (text : List Char) : List Char := (lineBreak? text).getD text

/-- A string in any of the four forms of quotes. -/
def string? : List Char → Option (String × List Char)
  | '"' :: '"' :: '"' :: rest => finish (longBasic? false (dropLineBreak rest))
  | '\'' :: '\'' :: '\'' :: rest => finish (longLiteral? (dropLineBreak rest))
  | '"' :: rest => finish (basic? rest)
  | '\'' :: rest => finish (literal? rest)
  | _ => none
where
  /-- The characters as a string. -/
  finish (r : Option (List Char × List Char)) : Option (String × List Char) :=
    r.map fun (cs, rest) => (String.ofList cs, rest)

/-! ## Keys -/

/-- A key without dots. -/
def simpleKey? : List Char → Option (String × List Char)
  | '"' :: rest => (basic? rest).map fun (cs, rest) => (String.ofList cs, rest)
  | '\'' :: rest => (literal? rest).map fun (cs, rest) => (String.ofList cs, rest)
  | text =>
    match text.span inBareKey with
    | ([], _) => none
    | (cs, rest) => some (String.ofList cs, rest)

/-- The parts of a key, with blanks around them, at most so many. -/
def keyParts? : Nat → List Char → Option (List String × List Char)
  | 0, _ => none
  | n + 1, text => do
    let (part, rest) ← simpleKey? (skipBlanks text)
    match skipBlanks rest with
    | '.' :: rest =>
      let (parts, rest) ← keyParts? n rest
      return (part :: parts, rest)
    | rest => return ([part], rest)

/-- The levels of nesting, counted with the one that is never entered. -/
def maxNesting : Nat := 80

/-- A key: the parts before the last one, the last one, and the rest of the text. -/
def key? (text : List Char) : Option (List String × String × List Char) := do
  let (parts, rest) ← keyParts? (maxNesting - 1) text
  let last ← parts.getLast?
  return (parts.dropLast, last, rest)

end Toml

end Sidecar
