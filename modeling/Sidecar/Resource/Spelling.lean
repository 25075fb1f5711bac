import Sidecar.Resource.FileTree

/-!
# Paths as they are spelled

A text says more than a `Path` does. It may start at the root, go up (`..`), stay where it is (`.`),
and ask for a directory by a slash or a dot at its end. A `Spelling` is what a text says, and the
operations here follow it through a tree of files part by part. Every directory that is passed has
to be there, also one that is left again at once, so what a text leads to depends on the tree.

Texts and names have a greatest length. What is longer leads nowhere and is never created.
-/

namespace Sidecar

/-- The number of bytes that no text of a path reaches. -/
def spellingLimit : Nat := 4096

/-- The number of bytes that no name in a path exceeds. -/
def nameLimit : Nat := 255

/-- What the text of a path says: the directory it starts from, the parts to follow, each a name or
`..`, and how it ends. -/
structure Spelling where
  start : Path
  parts : List String
  endsInSlash : Bool
  endsInDot : Bool
deriving DecidableEq, Repr

namespace Spelling

/-- What a text says. The empty text, one with a zero byte and one that is too long say nothing. -/
def ofText? (text : String) : Option Spelling :=
  let pieces := (text.splitOn "/").filter (· ≠ "")
  if text = "" ∨ text.toList.any (·.toNat = 0) ∨ spellingLimit ≤ text.utf8ByteSize then none
  else
    some
      { start := if text.toList.head? = some '/' then ["/"] else []
        parts := pieces.filter (· ≠ ".")
        endsInSlash := text.toList.getLast? = some '/'
        endsInDot := pieces.getLast? = some "." }

/-- Does the text ask for a directory? -/
def asksForDirectory (s : Spelling) : Bool := s.endsInSlash || s.endsInDot

end Spelling

/-! ## The way through a tree -/

/-- The directory above another one. Above the root is the root itself. -/
def Path.up (path : Path) : Path :=
  if path = ["/"] then path
  else if path.isFixed then ".." :: path
  else path.dropLast

namespace FileTree

/-- Follow one part of a spelling from one directory to another. -/
def follow? (tree : FileTree) (place : Path) (part : String) : Option Path :=
  if part = ".." then some place.up
  else if tree.isDirectory (place ++ [part]) then some (place ++ [part])
  else none

/-- Follow some parts of a spelling from one directory to another. -/
def followAll? (tree : FileTree) (place : Path) (parts : List String) : Option Path :=
  parts.foldlM tree.follow? place

/-- Follow some parts of a spelling, creating the directories that are missing. A file in the way or
a name that is too long makes it fail; directories created before that stay. -/
def makeWay (tree : FileTree) (place : Path) : List String → Option Path × FileTree
  | [] => (some place, tree)
  | part :: parts =>
    match tree.follow? place part with
    | some place => tree.makeWay place parts
    | none =>
      let path := place ++ [part]
      if tree.contains path ∨ nameLimit < part.utf8ByteSize then (none, tree)
      else (tree.place path .directory).makeWay path parts

/-- The path that a spelling leads to, whether it is taken or not. -/
def target? (tree : FileTree) (s : Spelling) : Option Path :=
  match s.parts.getLast? with
  | none => some s.start
  | some last => do
    let place ← tree.followAll? s.start s.parts.dropLast
    if last = ".." then some place.up
    else if nameLimit < last.utf8ByteSize then none
    else some (place ++ [last])

/-! ## Files and directories by their text -/

/-- What a text leads to. A text that asks for a directory does not lead to a file. -/
def findText? (tree : FileTree) (text : String) : Option FileNode := do
  let s ← Spelling.ofText? text
  match tree.find? (← tree.target? s) with
  | some (.file content) => if s.asksForDirectory then none else some (.file content)
  | found => found

/-- Create the directories that lead to what a text names. -/
def createParents (tree : FileTree) (text : String) : FileTree :=
  match Spelling.ofText? text with
  | some s => (tree.makeWay s.start s.parts.dropLast).2
  | none => tree

/-- Create the directory that a text names and those that lead to it. A dot at the end is a
directory only where the part before it is one already. The empty text names nothing that would be
missing. -/
def createDirectory (tree : FileTree) (text : String) : Bool × FileTree :=
  match Spelling.ofText? text with
  | none => (text = "", tree)
  | some s =>
    if s.endsInDot then
      let tree := (tree.makeWay s.start s.parts.dropLast).2
      ((tree.followAll? s.start s.parts).isSome, tree)
    else
      let (place, tree) := tree.makeWay s.start s.parts
      (place.isSome, tree)

/-- Write the file that a text names. -/
def writeFile? (tree : FileTree) (text : String) (content : Bytes) : Option FileTree := do
  let s ← Spelling.ofText? text
  if s.asksForDirectory then none
  tree.write? (← tree.target? s) content

/-- Put more at the end of the file that a text names. -/
def appendFile? (tree : FileTree) (text : String) (more : Bytes) : Option FileTree :=
  match tree.findText? text with
  | some (.file content) => tree.writeFile? text (content ++ more)
  | _ => none

/-- Remove the file that a text names. A directory is not removed. -/
def removeFile? (tree : FileTree) (text : String) : Option FileTree := do
  match tree.findText? text with
  | some (.file _) => return tree.erase (← tree.target? (← Spelling.ofText? text))
  | _ => none

end FileTree

end Sidecar
