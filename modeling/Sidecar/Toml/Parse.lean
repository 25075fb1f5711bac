import Sidecar.Toml.Scalar
import Sidecar.Toml.Text

/-!
# Reading a TOML document

A document is a sequence of lines: keys with values, headers of tables, and comments. A key goes
into the table of the header before it. Values nest to a fixed depth only (`maxNesting`), and the
functions that read them recurse on the levels that are left.
-/

namespace Sidecar

namespace Toml

/-- A value at the front of a text, and the rest. -/
abbrev ValueReader := List Char → Option (Node × List Char)

/-- The items of an array after its opening bracket, at most so many. A comma may follow the last
one. -/
def items? (value : ValueReader) : Nat → List Char → Option (List Node × List Char)
  | 0, _ => none
  | n + 1, text =>
    match skipTrivia false text with
    | ']' :: rest => some ([], rest)
    | text => do
      let (item, rest) ← value text
      match skipTrivia false rest with
      | ',' :: rest =>
        let (items, rest) ← items? value n rest
        return (item :: items, rest)
      | ']' :: rest => return ([item], rest)
      | _ => none

/-- The keys of a table in braces after the opening one, at most so many, added to a table. -/
def pairs? (value : ValueReader) : Nat → Node → List Char → Option (Node × List Char)
  | 0, _, _ => none
  | n + 1, table, text => do
    let (path, key, rest) ← key? text
    match rest with
    | '=' :: rest =>
      let (v, rest) ← value (skipBlanks rest)
      let table ← table.setKey path key v
      match skipBlanks rest with
      | ',' :: rest => pairs? value n table rest
      | '}' :: rest => return (table, rest)
      | _ => none
    | _ => none

/-- A table that takes no more keys. -/
def close : Node → Node
  | .table _ entries => .table .closed entries
  | node => node

/-- A table in braces after the opening one. -/
def braces? (value : ValueReader) (text : List Char) : Option (Node × List Char) :=
  match skipBlanks text with
  | '}' :: rest => some (.table .closed [], rest)
  | text =>
    (pairs? value text.length (.table .headed []) text).map fun (table, rest) => (close table, rest)

/-- A value, with so many levels of nesting left. -/
def value? : Nat → ValueReader
  | depth, text =>
    match text with
    | '[' :: rest =>
      match depth with
      | 0 => none
      | depth + 1 => (items? (value? depth) rest.length rest).map fun (l, rest) => (.array l, rest)
    | '{' :: rest =>
      match depth with
      | 0 => none
      | depth + 1 => braces? (value? depth) rest
    | '"' :: _ | '\'' :: _ => (string? text).map fun (s, rest) => (.string s, rest)
    | text =>
      let (run, rest) := takeRun text
      (scalar? run).map fun node => (node, rest)

/-! ## Lines -/

/-- A document so far, and the path of the table that keys go into. -/
structure Draft where
  root : Node
  current : List String

/-- A line: nothing, a key with a value, a header, or a header of one of several tables. -/
inductive Line where
  | blank
  | pair (path : List String) (key : String) (value : Node)
  | header (path : List String) (key : String)
  | listHeader (path : List String) (key : String)

/-- The line at the front of a text that is not at its end, and the rest after its end. -/
def line? (text : List Char) : Option (Line × List Char) :=
  match text with
  | '#' :: _ => (lineEnd? text).map fun rest => (.blank, rest)
  | '\n' :: _ | '\r' :: _ => (lineBreak? text).map fun rest => (.blank, rest)
  | '[' :: '[' :: rest => do
    let (path, key, rest) ← key? rest
    match rest with
    | ']' :: ']' :: rest => return (.listHeader path key, ← lineEnd? rest)
    | _ => none
  | '[' :: rest => do
    let (path, key, rest) ← key? rest
    match rest with
    | ']' :: rest => return (.header path key, ← lineEnd? rest)
    | _ => none
  | text => do
    let (path, key, rest) ← key? text
    match rest with
    | '=' :: rest =>
      let (v, rest) ← value? (maxNesting - 1) (skipBlanks rest)
      return (.pair path key v, ← lineEnd? rest)
    | _ => none

/-- Take a line into the document. -/
def Draft.add (draft : Draft) : Line → Option Draft
  | .blank => some draft
  | .pair path key value => do
    let root ← draft.root.enter false (fun node => node.setKey path key value) draft.current
    return { draft with root }
  | .header path key => do return ⟨← draft.root.openTable path key, path ++ [key]⟩
  | .listHeader path key => do return ⟨← draft.root.openTables path key, path ++ [key]⟩

/-- Read lines to the end of the text, at most so many. -/
def lines? : Nat → Draft → List Char → Option Draft
  | 0, _, _ => none
  | n + 1, draft, text =>
    match skipBlanks text with
    | [] => some draft
    | text => do
      let (line, rest) ← line? text
      lines? n (← draft.add line) rest

/-- The mark some editors put at the front of a text. -/
def skipMark : List Char → List Char
  | c :: rest => if c.toNat = 0xFEFF then rest else c :: rest
  | [] => []

/-- The document that a text spells. -/
def parse? (text : String) : Option Node :=
  let cs := skipMark text.toList
  (lines? (cs.length + 1) ⟨.table .headed [], []⟩ cs).map Draft.root

end Toml

end Sidecar
