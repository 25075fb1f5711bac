import Sidecar.Queue.Basic
import Sidecar.Settle
import Sidecar.Submission.Store

/-!
# Taking in tasks and results

A submission reads the queues of a call beside the call itself. An `Intake` reads a batch of tasks:
a header, then that task's payload to its end, then the next header. It only stages what it reads,
and what it has staged is put into the store at once when the queue of headers has ended cleanly.
So a batch that fails anywhere, in its own queue, in a payload, by its size or by an id that is
taken, leaves the store as it was. A `ResultIntake` reads one payload and stores it under its key.

Both advance one entry of a queue at a time, and wait where the queue has none.
-/

namespace Sidecar

/-- What a step of a submission comes to: it waits for an entry, goes on, ends, or breaks down. -/
inductive Progress (σ ω : Type) where
  | waiting
  | going (next : σ)
  | ended (outcome : Except Cause ω)
  | broken

/-! ## Payloads -/

/-- What a step of reading a payload comes to. -/
inductive Drained where
  | waiting
  | going (received : Bytes)
  | failed (cause : Cause)
  | complete

/-- The cause of a payload that is too long. -/
def payloadTooLong (what : String) (limit : Nat) : Cause :=
  .ofText ("payload of " ++ what ++ " exceeds " ++ toString limit ++ " bytes")

/-- The cause of a payload that broke off. -/
def payloadBroken (what : String) (e : QueueError) : Cause :=
  (Cause.ofText e.message).within ("payload of " ++ what ++ " did not complete")

/-- Read one entry of a payload of which some bytes are received. -/
def drain (store : Store) (stopped : Bool) (what : String) (received : Bytes) (q : Queue Bytes) :
    Drained × Queue Bytes :=
  match q.recv stopped with
  | (.pending, q) => (.waiting, q)
  | (.item chunk, q) =>
    let received := received ++ chunk
    (if store.isTooLong received.length then .failed (payloadTooLong what store.limit)
      else .going received, q)
  | (.ended, q) => (.complete, q)
  | (.error e, q) => (.failed (payloadBroken what e), q)

/-! ## Batches of tasks -/

/-- The queues a batch arrives in: headers, each with the number of its payload's queue, and the
payloads. -/
structure TaskQueues where
  headers : Queue (TaskHeader × Nat)
  payloads : List (Queue Bytes)

namespace TaskQueues

/-- The reader of all the queues goes away. -/
def dropReaders (qs : TaskQueues) : TaskQueues :=
  ⟨qs.headers.dropReader, qs.payloads.map Queue.dropReader⟩

end TaskQueues

/-- A task whose payload is being read. -/
structure Unfinished where
  header : TaskHeader
  payload : Nat
  received : Bytes

/-- A batch being read: for whom, under which options, the tasks that are staged, and the task
whose payload is being read. -/
structure Intake where
  identity : Identity
  options : Option TaskOptions
  staged : List StoredTask
  current : Option Unfinished

/-- What a batch comes to: the tasks to be stored and their descriptors. -/
structure Submitted where
  tasks : List StoredTask
  created : List CreatedTask

namespace Intake

/-- A batch of which nothing is read. -/
def start (identity : Identity) (options : Option TaskOptions) : Intake :=
  ⟨identity, options, [], none⟩

/-- Is the id taken, in the store or in the batch itself? -/
def isTaken (intake : Intake) (store : Store) (id : String) : Bool :=
  store.tasks.contains id || intake.staged.any fun t => t.header.id = id

/-- The task that is staged once its payload is read. -/
def task (intake : Intake) (header : TaskHeader) (payload : Bytes) : StoredTask :=
  ⟨intake.identity.sessionId, intake.identity.taskId, intake.options, header, payload, false⟩

/-- What the batch comes to when it ends here. -/
def submitted (intake : Intake) : Submitted :=
  ⟨intake.staged, intake.staged.map fun t => t.header.created⟩

/-- The cause of an id that is taken. -/
def idTaken (id : String) : Cause := .ofText ("task " ++ id ++ " already exists")

/-- The cause of a queue of headers that broke off. -/
def headersBroken (e : QueueError) : Cause :=
  (Cause.ofText e.message).within "task request stream did not complete"

/-- Read the next header. -/
def takeHeader (intake : Intake) (store : Store) (stopped : Bool) (qs : TaskQueues) :
    Progress Intake Submitted × TaskQueues :=
  let (received, headers) := qs.headers.recv stopped
  let qs := { qs with headers }
  match received with
  | .pending => (.waiting, qs)
  | .item (header, payload) =>
    if intake.isTaken store header.id then (.ended (.error (idTaken header.id)), qs)
    else (.going { intake with current := some ⟨header, payload, []⟩ }, qs)
  | .ended => (.ended (.ok intake.submitted), qs)
  | .error e => (.ended (.error (headersBroken e)), qs)

/-- Read the next entry of the present payload. -/
def takeChunk (intake : Intake) (store : Store) (stopped : Bool) (qs : TaskQueues)
    (u : Unfinished) : Progress Intake Submitted × TaskQueues :=
  match qs.payloads[u.payload]? with
  | none => (.waiting, qs)
  | some q =>
    let (drained, q) := drain store stopped ("task " ++ u.header.id) u.received q
    let qs := { qs with payloads := qs.payloads.set u.payload q }
    match drained with
    | .waiting => (.waiting, qs)
    | .going received => (.going { intake with current := some { u with received } }, qs)
    | .failed cause => (.ended (.error cause), qs)
    | .complete =>
      (.going { intake with
        staged := intake.staged ++ [intake.task u.header u.received]
        current := none }, qs)

/-- Read the next entry. -/
def step (intake : Intake) (store : Store) (stopped : Bool) (qs : TaskQueues) :
    Progress Intake Submitted × TaskQueues :=
  match intake.current with
  | none => intake.takeHeader store stopped qs
  | some u => intake.takeChunk store stopped qs u

end Intake

/-! ## Results -/

/-- A result being read: for whom, under which key, and what is received of it. -/
structure ResultIntake where
  identity : Identity
  key : String
  received : Bytes

namespace ResultIntake

/-- The result as it is stored. -/
def result (intake : ResultIntake) : StoredResult :=
  ⟨intake.identity.sessionId, intake.identity.taskId, intake.received⟩

/-- Read the next entry. -/
def step (intake : ResultIntake) (store : Store) (stopped : Bool) (q : Queue Bytes) :
    Progress ResultIntake (String × StoredResult) × Queue Bytes :=
  let (drained, q) := drain store stopped ("result " ++ intake.key) intake.received q
  match drained with
  | .waiting => (.waiting, q)
  | .going received => (.going { intake with received }, q)
  | .failed cause => (.ended (.error cause), q)
  | .complete => (.ended (.ok (intake.key, intake.result)), q)

end ResultIntake

/-! ## Whole queues -/

namespace TaskQueues

/-- The number of entries there are to read. -/
def entries (qs : TaskQueues) : Nat :=
  qs.headers.buffer.length + qs.payloads.foldr (fun q n => q.buffer.length + n) 0

end TaskQueues

namespace Store

/-- Read a batch as far as its queues go, in at most so many steps. -/
def takeIn (store : Store) : Nat → Intake → TaskQueues → Progress Intake Submitted
  | 0, intake, _ => .going intake
  | n + 1, intake, qs =>
    match intake.step store false qs with
    | (.going intake, qs) => takeIn store n intake qs
    | (progress, _) => progress

/-- Create the tasks of a batch whose queues are filled, or nothing if the queues do not end. -/
def createTasks (store : Store) (identity : Identity) (options : Option TaskOptions)
    (qs : TaskQueues) : Option (Except Cause (List CreatedTask)) × Store :=
  match store.takeIn (qs.entries + 1) (.start identity options) qs with
  | .ended (.ok submitted) => (some (.ok submitted.created), store.addTasks submitted.tasks)
  | .ended (.error cause) => (some (.error cause), store)
  | _ => (none, store)

/-- Read a result as far as its queue goes, in at most so many steps. -/
def takeInResult (store : Store) :
    Nat → ResultIntake → Queue Bytes → Progress ResultIntake (String × StoredResult)
  | 0, intake, _ => .going intake
  | n + 1, intake, q =>
    match intake.step store false q with
    | (.going intake, q) => takeInResult store n intake q
    | (progress, _) => progress

/-- Store the result whose payload is in a filled queue, or nothing if the queue does not end. -/
def setResult (store : Store) (identity : Identity) (key : String) (q : Queue Bytes) :
    Option (Except Cause Unit) × Store :=
  match store.takeInResult (q.buffer.length + 1) ⟨identity, key, []⟩ q with
  | .ended (.ok (key, result)) => (some (.ok ()), store.addResult key result)
  | .ended (.error cause) => (some (.error cause), store)
  | _ => (none, store)

end Store

end Sidecar
