import Sidecar.Dict
import Sidecar.Resource.Disk

/-!
# Where resources come from

A `Library` looks resources up by key and yields them as a run of buffers that ends cleanly or with
a failure. Resources are held in memory, kept on disk, or prepared: a prepared resource says what
each read yields, failures included, or that the lookup itself fails.
-/

namespace Sidecar

/-- The buffers of a resource, in order. A failure is the last thing a resource yields. -/
abbrev Buffers := List (Except StorageError Bytes)

/-- A place where resources are looked up. -/
inductive Library where
  | memory (values : Dict (List Bytes))
  | disk (disk : Disk)
  | prepared (values : Dict (Except StorageError Buffers))

namespace Library

/-- No resources, in memory. -/
def empty : Library := .memory ∅

/-- Look up a resource. -/
def fetch (library : Library) (key : String) : Except StorageError Buffers :=
  match library with
  | memory values =>
    match values.get? key with
    | some buffers => .ok (buffers.map .ok)
    | none => .error (.notFound key)
  | disk d => d.get key
  | prepared values => (values.get? key).getD (.error (.notFound key))

end Library

end Sidecar
