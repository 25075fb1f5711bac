import Sidecar.Cause
import Sidecar.Message.Basic

/-!
# Stored tasks and results

The `Store` keeps the tasks that were created and the results that were handed in. Batches of tasks
are put in whole (`Store.addTasks`), by whoever has read them whole. Finalizing marks tasks as
released for scheduling; it refuses a list that names a task the store does not have, and then
marks none of them.
-/

namespace Sidecar

/-- The task an agent serves, and the session the task belongs to. -/
structure Identity where
  sessionId : String
  taskId : String
deriving DecidableEq, Repr

/-- A created task. -/
structure StoredTask where
  sessionId : String
  parentTaskId : String
  options : Option TaskOptions
  header : TaskHeader
  payload : Bytes
  finalized : Bool
deriving DecidableEq

/-- A result that was handed in. -/
structure StoredResult where
  sessionId : String
  taskId : String
  payload : Bytes
deriving DecidableEq, Repr

/-- Tasks by their ids and results by their keys. No payload is longer than the limit, where zero
stands for no limit. -/
structure Store where
  tasks : Dict StoredTask
  results : Dict StoredResult
  limit : Nat
deriving DecidableEq

namespace Store

/-- Nothing is stored. -/
def empty (limit : Nat) : Store := ⟨∅, ∅, limit⟩

/-- Is a payload of this length refused? -/
def isTooLong (store : Store) (length : Nat) : Bool := 0 < store.limit && store.limit < length

/-- Put in tasks, each under its id. -/
def addTasks (store : Store) (tasks : List StoredTask) : Store :=
  { store with tasks := tasks.foldl (fun dict t => dict.insert t.header.id t) store.tasks }

/-- Put in a result under a key, replacing what was there. -/
def addResult (store : Store) (key : String) (result : StoredResult) : Store :=
  { store with results := store.results.insert key result }

/-- Mark a task as released. -/
def release (tasks : Dict StoredTask) (created : CreatedTask) : Dict StoredTask :=
  tasks.modify created.taskId fun t => { t with finalized := true }

/-- Release tasks for scheduling, and say how many. -/
def finalize (store : Store) (created : List CreatedTask) : Except Cause Nat × Store :=
  match created.find? fun c => !store.tasks.contains c.taskId with
  | some missing => (.error (.ofText ("unknown task " ++ missing.taskId)), store)
  | none => (.ok created.length, { store with tasks := created.foldl release store.tasks })

end Store

end Sidecar
