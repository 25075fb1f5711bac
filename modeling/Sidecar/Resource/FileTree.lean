import Sidecar.Bytes

/-!
# A tree of files

The part of a file system that the library works with: directories and regular files. A path is the
list of its components from the working directory down, and a `FileTree` is the set of paths that
are taken, each by a directory or by a file with its content. The working directory, those above it
(`..`, `../..` and so on) and the root (`/`) are there whatever happens. Every operation that needs
a directory to be there checks that it is.
-/

namespace Sidecar

/-- The components of a path, from the working directory down. -/
abbrev Path := List String

/-- Is the path that of the working directory, of one above it, or of the root? -/
def Path.isFixed (path : Path) : Bool := path.all (· = "..") || path = ["/"]

/-- What a path is taken by. -/
inductive FileNode where
  | directory
  | file (content : Bytes)
deriving DecidableEq, Repr

/-- The taken paths. Each occurs once. -/
structure FileTree where
  nodes : List (Path × FileNode)
deriving DecidableEq, Repr

/-- A path as it is written. -/
def Path.render (path : Path) : String := String.intercalate "/" path

namespace FileTree

/-- Only the directories that are always there. -/
def empty : FileTree := ⟨[]⟩

/-- What is at a path. -/
def find? (tree : FileTree) (path : Path) : Option FileNode :=
  if path.isFixed then some .directory else tree.nodes.lookup path

/-- Is there anything at the path? -/
def contains (tree : FileTree) (path : Path) : Bool := (tree.find? path).isSome

/-- Is there a directory at the path? -/
def isDirectory (tree : FileTree) (path : Path) : Bool := tree.find? path = some .directory

/-- Is one of the components that lead to the path a file? -/
def isBlocked (tree : FileTree) (path : Path) : Bool :=
  (List.range path.length).any fun n =>
    match tree.find? (path.take n) with
    | some (.file _) => true
    | _ => false

/-- Let a path be taken by a node, whatever was there. -/
def place (tree : FileTree) (path : Path) (node : FileNode) : FileTree :=
  ⟨(path, node) :: tree.nodes.filter fun e => e.1 ≠ path⟩

/-- Let a path be free. -/
def erase (tree : FileTree) (path : Path) : FileTree :=
  ⟨tree.nodes.filter fun e => e.1 ≠ path⟩

/-- Create the directories that lead to a path, one component after the other, and the one at the
path. A file in the way makes it fail; directories created before that stay. -/
def createDirs (tree : FileTree) (path : Path) : Bool × FileTree :=
  go tree [] path
where
  /-- Create the rest of the directories below one that is there. -/
  go (tree : FileTree) (done : Path) : Path → Bool × FileTree
    | [] => (true, tree)
    | name :: rest =>
      let path := done ++ [name]
      match tree.find? path with
      | some .directory => go tree path rest
      | some (.file _) => (false, tree)
      | none => go (tree.place path .directory) path rest

/-- Write a file, whatever it held before. Its directory has to be there, and there must be no
directory at the path. -/
def write? (tree : FileTree) (path : Path) (content : Bytes) : Option FileTree :=
  if tree.isDirectory path ∨ ¬tree.isDirectory path.dropLast then none
  else some (tree.place path (.file content))

/-- Move a file to another path, replacing a file that is there. There must be no directory at the
other path. -/
def renameFile? (tree : FileTree) (source target : Path) : Option FileTree :=
  match tree.find? source with
  | some (.file content) =>
    if tree.isDirectory target ∨ ¬tree.isDirectory target.dropLast then none
    else some ((tree.erase source).place target (.file content))
  | _ => none

/-- What is below a path, by its written path: directories with a slash at their end, files with
their size. -/
def listing (tree : FileTree) (root : Path) : List (String × Option Nat) :=
  let below := tree.nodes.filter fun e => root.isPrefixOf e.1 && e.1 ≠ root
  let lines := below.map fun (path, node) =>
    match node with
    | .directory => (path.render ++ "/", none)
    | .file content => (path.render, some content.length)
  lines.mergeSort fun a b => a.1 ≤ b.1

end FileTree

end Sidecar
