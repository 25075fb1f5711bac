import Sidecar.Blake3
import Sidecar.Cause
import Sidecar.Resource.FileTree

/-!
# Resources on disk

A resource is a file in a directory of two levels, named by the hash of its key: the first two
digits of the hash, then the whole hash. A resource is written to a temporary file that is then
renamed into place, so that whoever reads it finds the whole of it or what was there before.

Reading is lazy. An open resource (`Disk.Handle`) remembers how far it has been read, and each poll
reads up to one chunk from there. A poll that finds nothing more ends the resource for good.
-/

namespace Sidecar

/-- Why a lookup of a resource fails. -/
inductive StorageError where
  | notFound (key : String)
  | backend (cause : Cause)
deriving DecidableEq, Repr

/-- The text of the failure. -/
def StorageError.message : StorageError → String
  | notFound key => "key not found: " ++ key
  | backend cause => cause.message

/-- A directory of resources in a tree of files, and the size of the chunks they are read in. -/
structure Disk where
  root : Path
  chunk : Nat
  tree : FileTree
deriving DecidableEq, Repr

namespace Disk

/-- Open a directory of resources, creating it if it is missing. -/
def create (tree : FileTree) (root : Path) (chunk : Nat) : Except Cause Disk :=
  match tree.createDirs root with
  | (true, tree) => .ok ⟨root, max chunk 1, tree⟩
  | (false, _) => .error (.ofText ("failed to create resource root: " ++ Path.render root))

/-- The name of the file that holds the resource of a key. -/
def fileName (key : String) : String := hex (Blake3.hash (utf8 key))

/-- The directory of a resource. -/
def directory (disk : Disk) (key : String) : Path :=
  disk.root ++ [String.ofList ((fileName key).toList.take 2)]

/-- The file of a resource. -/
def path (disk : Disk) (key : String) : Path := disk.directory key ++ [fileName key]

/-- The file that is written before it is renamed. -/
def temporaryPath (disk : Disk) (key : String) : Path :=
  disk.directory key ++ [fileName key ++ ".tmp"]

/-- Is there anything in the place of the resource? -/
def has (disk : Disk) (key : String) : Bool := disk.tree.contains (disk.path key)

/-- Store a resource, replacing what was under its key. A failure may leave the directory or the
temporary file behind. -/
def put (disk : Disk) (key : String) (content : Bytes) : Except Cause Unit × Disk :=
  let directory := disk.directory key
  let temporary := disk.temporaryPath key
  let path := disk.path key
  match disk.tree.createDirs directory with
  | (false, tree) =>
    (.error (.ofText ("failed to create resource dir: " ++ Path.render directory)),
      { disk with tree })
  | (true, tree) =>
    match tree.write? temporary content with
    | none =>
      (.error (.ofText ("failed to create temp file: " ++ Path.render temporary)),
        { disk with tree })
    | some tree =>
      match tree.renameFile? temporary path with
      | none =>
        (.error (.ofText ("failed to rename " ++ Path.render temporary ++ " to " ++
          Path.render path)), { disk with tree })
      | some tree => (.ok (), { disk with tree })

/-! ## Reading -/

/-- An open resource: its file, how much of it is read, and whether it is over. -/
structure Handle where
  path : Path
  offset : Nat
  finished : Bool
deriving DecidableEq, Repr

/-- Open the resource of a key. A directory in its place can be opened, but not read. -/
def openFile (disk : Disk) (key : String) : Except StorageError Handle :=
  let path := disk.path key
  if disk.tree.contains path then .ok ⟨path, 0, false⟩
  else if disk.tree.isBlocked path then
    .error (.backend (.ofText ("failed to open resource: " ++ Path.render path)))
  else .error (.notFound key)

/-- The cause of a resource that cannot be read. -/
def unreadable : StorageError := .backend (.ofText "failed to read resource")

/-- Read the next chunk. -/
def poll (disk : Disk) (handle : Handle) : Option (Except StorageError Bytes) × Handle :=
  if handle.finished then (none, handle)
  else
    match disk.tree.find? handle.path with
    | some (.file content) =>
      match (content.drop handle.offset).take disk.chunk with
      | [] => (none, { handle with finished := true })
      | chunk => (some (.ok chunk), { handle with offset := handle.offset + chunk.length })
    | _ => (some (.error unreadable), { handle with finished := true })

/-- Read so many chunks at most, to the end of the resource. -/
def pollAll (disk : Disk) : Nat → Handle → List (Except StorageError Bytes)
  | 0, _ => []
  | n + 1, handle =>
    match disk.poll handle with
    | (none, _) => []
    | (some read, handle) => read :: pollAll disk n handle

/-- The size of what is at a path. -/
def sizeAt (disk : Disk) (path : Path) : Nat :=
  match disk.tree.find? path with
  | some (.file content) => content.length
  | _ => 0

/-- Everything that is left of an open resource. No resource has more chunks than bytes. -/
def rest (disk : Disk) (handle : Handle) : List (Except StorageError Bytes) :=
  disk.pollAll (disk.sizeAt handle.path + 1) handle

/-- The resource of a key, in chunks. -/
def get (disk : Disk) (key : String) : Except StorageError (List (Except StorageError Bytes)) :=
  (disk.openFile key).map disk.rest

end Disk

end Sidecar
