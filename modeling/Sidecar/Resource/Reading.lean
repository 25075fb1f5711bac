import Sidecar.Resource.Disk

/-!
# Chunks, one read at a time

A file may hand over less than it is asked for. So a chunk is put together from as many reads as it
takes (`fill`): until the chunk is full, or until a read brings nothing, which it does at the end of
the file only. How much each read brings is for the system to choose (`grant`), and a `Reader`
counts the reads it has made.
-/

namespace Sidecar

/-- What one read brings of the bytes that are left: no more than there is room for, no more than
the system grants, and at least one byte if there is any. -/
def readSome (granted room : Nat) (left : Bytes) : Bytes := left.take (min room (max granted 1))

/-- Fill the room of a chunk with what is left of a file. `grant` says how much each read brings at
most, by the number of reads before it, and the number of reads made is part of the result. -/
def fill (grant : Nat → Nat) (reads room : Nat) (left : Bytes) : Bytes × Nat :=
  if room = 0 then ([], reads)
  else
    match readSome (grant reads) room left with
    | [] => ([], reads + 1)
    | b :: piece =>
      let (more, reads) :=
        fill grant (reads + 1) (room - (piece.length + 1)) (left.drop (piece.length + 1))
      (b :: piece ++ more, reads)
termination_by room

namespace Disk

/-- An open resource and the number of reads that were made of it. -/
structure Reader where
  handle : Handle
  reads : Nat
deriving DecidableEq, Repr

/-- Read the next chunk. -/
def pollBy (disk : Disk) (grant : Nat → Nat) (reader : Reader) :
    Option (Except StorageError Bytes) × Reader :=
  let ⟨handle, reads⟩ := reader
  if handle.finished then (none, reader)
  else
    match disk.tree.find? handle.path with
    | some (.file content) =>
      match fill grant reads disk.chunk (content.drop handle.offset) with
      | ([], reads) => (none, ⟨{ handle with finished := true }, reads⟩)
      | (chunk, reads) =>
        (some (.ok chunk), ⟨{ handle with offset := handle.offset + chunk.length }, reads⟩)
    | _ => (some (.error unreadable), ⟨{ handle with finished := true }, reads⟩)

/-- Read so many chunks at most, to the end of the resource. -/
def pollAllBy (disk : Disk) (grant : Nat → Nat) : Nat → Reader → List (Except StorageError Bytes)
  | 0, _ => []
  | n + 1, reader =>
    match disk.pollBy grant reader with
    | (none, _) => []
    | (some read, reader) => read :: pollAllBy disk grant n reader

/-- Everything that is left of an open resource. -/
def restBy (disk : Disk) (grant : Nat → Nat) (reader : Reader) :
    List (Except StorageError Bytes) :=
  disk.pollAllBy grant (disk.sizeAt reader.handle.path + 1) reader

/-- The resource of a key, in chunks. -/
def getBy (disk : Disk) (grant : Nat → Nat) (key : String) :
    Except StorageError (List (Except StorageError Bytes)) :=
  (disk.openFile key).map fun handle => disk.restBy grant ⟨handle, 0⟩

end Disk

end Sidecar
