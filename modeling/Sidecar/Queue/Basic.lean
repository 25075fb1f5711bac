import Sidecar.Protocol.Violation

/-!
# Queues with an explicit end

A `Queue` has one writer and one reader. Its end is an entry like its items: the reader sees a
clean end only after `Entry.close`, and an error after `Entry.fail`. A writer that goes away
without either is seen as `QueueError.abandoned`, so a torn-down producer is never mistaken for a
finished payload.

A bounded queue has a number of slots, and the end takes one like an item. A writer that finds no
free slot is suspended with its entry outstanding (`Queue.waiting`), and tries again when it is
resumed. Whether the call that owns the queue was stopped is not the queue's own state: every
operation is told, because a stop reaches all queues of a call at once.
-/

namespace Sidecar

/-- Why an operation on a queue fails, or why a queue ended. -/
inductive QueueError where
  | failed (message : String)
  | violation (cause : Violation)
  | abandoned
  | readerGone
  | cancelled
deriving DecidableEq, Repr

/-- The text of the error. -/
def QueueError.message : QueueError → String
  | failed m => "queue failed: " ++ m
  | violation v => v.message
  | abandoned => "writer dropped before the queue was closed"
  | readerGone => "reader dropped, queue is no longer consumed"
  | cancelled => "queue wait cancelled"

/-- What a writer puts into a queue: an item, or one of the two ends. -/
inductive Entry (α : Type) where
  | item (value : α)
  | close
  | fail (error : QueueError)
deriving DecidableEq

/-- A queue and the state of its two ends. A queue without a capacity always has a free slot. -/
structure Queue (α : Type) where
  capacity : Option Nat
  buffer : List (Entry α)
  waiting : Option (Entry α)
  writerGone : Bool
  readerGone : Bool
  finished : Bool
deriving DecidableEq

/-- What became of an entry that the writer wanted to put in. -/
inductive Sent where
  | landed
  | refused (error : QueueError)
  | suspended
deriving DecidableEq, Repr

/-- What the reader got. -/
inductive Received (α : Type) where
  | item (value : α)
  | ended
  | error (error : QueueError)
  | pending
deriving DecidableEq

namespace Queue

variable {α : Type}

/-- An empty queue that never suspends its writer. -/
def unbounded : Queue α := ⟨none, [], none, false, false, false⟩

/-- An empty queue with a number of slots, at least one. -/
def bounded (capacity : Nat) : Queue α := ⟨some (max capacity 1), [], none, false, false, false⟩

/-- Is there a free slot? -/
def hasRoom (q : Queue α) : Bool :=
  match q.capacity with
  | none => true
  | some slots => q.buffer.length < slots

/-! ## The writer -/

/-- Put an entry in. -/
def send (q : Queue α) (stopped : Bool) (entry : Entry α) : Sent × Queue α :=
  if stopped then (.refused .cancelled, q)
  else if q.readerGone then (.refused .readerGone, q)
  else if q.hasRoom then (.landed, { q with buffer := q.buffer ++ [entry] })
  else (.suspended, { q with waiting := some entry })

/-- Try again to put in the entry that is outstanding. -/
def resume (q : Queue α) (stopped : Bool) (entry : Entry α) : Sent × Queue α :=
  send { q with waiting := none } stopped entry

/-- The writer goes away, and what it had outstanding with it. -/
def dropWriter (q : Queue α) : Queue α := { q with writerGone := true, waiting := none }

/-! ## The reader -/

/-- Take the next entry. After an end or an error there is nothing more. -/
def recv (q : Queue α) (stopped : Bool) : Received α × Queue α :=
  if q.finished then (.ended, q)
  else if stopped then (.error .cancelled, { q with finished := true })
  else
    match q.buffer with
    | .item a :: rest => (.item a, { q with buffer := rest })
    | .close :: rest => (.ended, { q with buffer := rest, finished := true })
    | .fail e :: rest => (.error e, { q with buffer := rest, finished := true })
    | [] =>
      if q.writerGone then (.error .abandoned, { q with finished := true }) else (.pending, q)

/-- The reader goes away, and what it had not read with it. -/
def dropReader (q : Queue α) : Queue α := { q with readerGone := true, buffer := [] }

/-- Take items until something else comes, at most so many times. -/
def takeItems (stopped : Bool) : Nat → Queue α → List α × Received α × Queue α
  | 0, q => ([], .pending, q)
  | n + 1, q =>
    match q.recv stopped with
    | (.item a, q) =>
      let (items, last, q) := takeItems stopped n q
      (a :: items, last, q)
    | (last, q) => ([], last, q)

/-- All items that can be taken now, and what came instead of another one. -/
def takeAll (q : Queue α) (stopped : Bool) : List α × Received α × Queue α :=
  takeItems stopped (q.buffer.length + 1) q

/-! ## Queues that were filled in advance -/

/-- How the writer of a queue leaves it: closed, failed, or without an end. -/
inductive Ending where
  | closed
  | failed (error : QueueError)
  | dropped
deriving DecidableEq, Repr

/-- The entry that an ending leaves behind. -/
def Ending.entries : Ending → List (Entry α)
  | closed => [.close]
  | failed error => [.fail error]
  | dropped => []

/-- A queue whose writer put some items in and left. -/
def filled (items : List α) (ending : Ending) : Queue α :=
  ⟨none, items.map .item ++ ending.entries, none, true, false, false⟩

/-! ## What the operations do -/

@[simp] theorem hasRoom_of_capacity_none {q : Queue α} (h : q.capacity = none) :
    q.hasRoom = true := by
  simp [hasRoom, h]

@[simp] theorem send_stopped (q : Queue α) (entry : Entry α) :
    q.send true entry = (.refused .cancelled, q) := rfl

theorem send_of_readerGone {q : Queue α} (h : q.readerGone = true) (entry : Entry α) :
    q.send false entry = (.refused .readerGone, q) := by
  simp [send, h]

theorem send_of_hasRoom {q : Queue α} (h : q.readerGone = false) (hroom : q.hasRoom = true)
    (entry : Entry α) :
    q.send false entry = (.landed, { q with buffer := q.buffer ++ [entry] }) := by
  simp [send, h, hroom]

theorem send_of_full {q : Queue α} (h : q.readerGone = false) (hfull : q.hasRoom = false)
    (entry : Entry α) :
    q.send false entry = (.suspended, { q with waiting := some entry }) := by
  simp [send, h, hfull]

theorem resume_of_readerGone {q : Queue α} (h : q.readerGone = true) (entry : Entry α) :
    q.resume false entry = (.refused .readerGone, { q with waiting := none }) :=
  send_of_readerGone (q := { q with waiting := none }) h entry

theorem resume_of_hasRoom {q : Queue α} (h : q.readerGone = false) (hroom : q.hasRoom = true)
    (entry : Entry α) :
    q.resume false entry =
      (.landed, { q with buffer := q.buffer ++ [entry], waiting := none }) :=
  send_of_hasRoom (q := { q with waiting := none }) h hroom entry

theorem resume_of_full {q : Queue α} (h : q.readerGone = false) (hfull : q.hasRoom = false)
    (entry : Entry α) : q.resume false entry = (.suspended, { q with waiting := some entry }) :=
  send_of_full (q := { q with waiting := none }) h hfull entry

theorem recv_stopped {q : Queue α} (hf : q.finished = false) :
    q.recv true = (.error .cancelled, { q with finished := true }) := by
  simp [recv, hf]

theorem recv_item {q : Queue α} {a : α} {rest : List (Entry α)} (hf : q.finished = false)
    (hb : q.buffer = .item a :: rest) : q.recv false = (.item a, { q with buffer := rest }) := by
  simp [recv, hf, hb]

theorem recv_close {q : Queue α} {rest : List (Entry α)} (hf : q.finished = false)
    (hb : q.buffer = .close :: rest) :
    q.recv false = (.ended, { q with buffer := rest, finished := true }) := by
  simp [recv, hf, hb]

theorem recv_fail {q : Queue α} {e : QueueError} {rest : List (Entry α)} (hf : q.finished = false)
    (hb : q.buffer = .fail e :: rest) :
    q.recv false = (.error e, { q with buffer := rest, finished := true }) := by
  simp [recv, hf, hb]

theorem recv_pending {q : Queue α} (hf : q.finished = false) (hb : q.buffer = [])
    (hw : q.writerGone = false) : q.recv false = (.pending, q) := by
  simp [recv, hf, hb, hw]

theorem recv_abandoned {q : Queue α} (hf : q.finished = false) (hb : q.buffer = [])
    (hw : q.writerGone = true) :
    q.recv false = (.error .abandoned, { q with finished := true }) := by
  simp [recv, hf, hb, hw]

/-- Reading touches only the buffer and the mark that the end was seen. -/
theorem recv_frame (q : Queue α) (stopped : Bool) :
    (q.recv stopped).2.capacity = q.capacity ∧ (q.recv stopped).2.waiting = q.waiting ∧
      (q.recv stopped).2.writerGone = q.writerGone ∧
      (q.recv stopped).2.readerGone = q.readerGone := by
  unfold recv
  split
  · exact ⟨rfl, rfl, rfl, rfl⟩
  · split
    · exact ⟨rfl, rfl, rfl, rfl⟩
    · split <;> try exact ⟨rfl, rfl, rfl, rfl⟩
      split <;> exact ⟨rfl, rfl, rfl, rfl⟩

/-- Reading takes at most one entry out of the buffer and puts none in. -/
theorem length_buffer_recv_le (q : Queue α) (stopped : Bool) :
    (q.recv stopped).2.buffer.length ≤ q.buffer.length := by
  unfold recv
  split
  · exact Nat.le_refl _
  · split
    · exact Nat.le_refl _
    · split <;> simp_all
      split <;> simp_all

end Queue

end Sidecar
