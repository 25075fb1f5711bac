import Sidecar.Queue.Basic

/-!
# A queue and its two handles

A `Channel` is a queue whose writer and reader are driven one operation at a time, together with
the mark that it was cancelled. An operation of the writer that is suspended stays outstanding: it
is tried again by `Operation.resume`, and until it is finished the writer is busy. It may also be
given up (`Operation.withdraw`). Ending the queue gives the writer up, and so does dropping it.

The reader is read entry by entry, or it is given away to collect what is left or to be read as a
stream (`ReaderUse`). All three take their entries in the same way (`Operation.recv`), and what
collects waits for the writer like any other reader: it goes on with the next entry when that is
there, and answers when the end has come.
-/

namespace Sidecar

namespace Channel

/-- An operation on one of the two handles. -/
inductive Operation (α : Type) where
  | push (value : α)
  | close
  | fail (error : QueueError)
  | resume
  | withdraw
  | dropWriter
  | recv
  | isFinished
  | collectAll
  | stream
  | dropReader
  | cancel

/-- What an operation answers. -/
inductive Answer (α : Type) where
  | done
  | idle
  | busy
  | gone
  | panicked
  | flag (value : Bool)
  | sent (outcome : Sent)
  | received (outcome : Received α)
  | collected (outcome : Except QueueError (List α))

end Channel

/-- What the reader of a queue is used for: it is read entry by entry; it collects, and has these
items; it is read as a stream; or it was, and the stream has reported its end. -/
inductive ReaderUse (α : Type) where
  | entries
  | collecting (items : List α)
  | streaming
  | spent

namespace ReaderUse

variable {α : Type}

/-- Does the reader still have its end of the queue? -/
def isLive : Option (ReaderUse α) → Bool
  | none | some spent => false
  | some entries | some (collecting _) | some streaming => true

/-- What is answered when the reader has got something, and what it is used for after that. With the
end, or with an error, what collects has done its work. A stream that has reported its end is not to
be read any more. -/
def take : ReaderUse α → Received α → Channel.Answer α × Option (ReaderUse α)
  | entries, r => (.received r, some entries)
  | collecting items, .item a => (.received (.item a), some (collecting (items ++ [a])))
  | collecting items, .pending => (.received .pending, some (collecting items))
  | collecting items, .ended => (.collected (.ok items), none)
  | collecting _, .error e => (.collected (.error e), none)
  | streaming, .ended => (.received .ended, some spent)
  | streaming, r => (.received r, some streaming)
  | spent, _ => (.panicked, some spent)

end ReaderUse

/-- A queue, whether it was cancelled, and what its reader is used for, unless that is gone. -/
structure Channel (α : Type) where
  queue : Queue α
  cancelled : Bool
  reader : Option (ReaderUse α)

namespace Channel

variable {α : Type}

/-- A channel of which nothing was used yet. -/
def ofQueue (queue : Queue α) : Channel α := ⟨queue, false, some .entries⟩

/-! ## The writer -/

/-- Is the entry an end? An end gives the writer up once it is no longer outstanding. -/
def endsQueue : Entry α → Bool
  | .item _ => false
  | .close | .fail _ => true

/-- Settle what became of an entry: a writer whose end landed or was refused is gone. -/
def settle (c : Channel α) (entry : Entry α) (outcome : Sent × Queue α) : Answer α × Channel α :=
  let (sent, queue) := outcome
  let queue := if endsQueue entry ∧ sent ≠ .suspended then queue.dropWriter else queue
  (.sent sent, { c with queue })

/-- The writer puts an entry in, if it can. -/
def write (c : Channel α) (entry : Entry α) : Answer α × Channel α :=
  if c.queue.writerGone then (.gone, c)
  else if c.queue.waiting.isSome then (.busy, c)
  else c.settle entry (c.queue.send c.cancelled entry)

/-- The writer tries its outstanding entry again. -/
def resume (c : Channel α) : Answer α × Channel α :=
  if c.queue.writerGone then (.gone, c)
  else
    match c.queue.waiting with
    | none => (.idle, c)
    | some entry => c.settle entry (c.queue.resume c.cancelled entry)

/-- The outstanding entry is given up. With an end the writer has given itself up, too. -/
def withdraw (c : Channel α) : Channel α :=
  match c.queue.waiting with
  | none => c
  | some entry =>
    { c with queue := { c.queue with
      waiting := none, writerGone := c.queue.writerGone || endsQueue entry } }

/-! ## The reader -/

/-- The reader goes away. -/
def dropReader (c : Channel α) : Channel α := { c with queue := c.queue.dropReader, reader := none }

/-- The reader takes the next entry, be it for itself, for what collects, or for a stream. -/
def recv (c : Channel α) : Answer α × Channel α :=
  match c.reader with
  | none => (.gone, c)
  | some .spent => (.panicked, c)
  | some use =>
    let (r, queue) := c.queue.recv c.cancelled
    let (answer, reader) := use.take r
    (answer,
      { c with queue := if ReaderUse.isLive reader then queue else queue.dropReader, reader })

/-- The reader is asked for something, or given away, if it is read entry by entry. -/
def handle (c : Channel α) (outcome : Answer α × Channel α) : Answer α × Channel α :=
  match c.reader with
  | some .entries => outcome
  | _ => (.gone, c)

/-- Perform an operation. -/
def perform (c : Channel α) : Operation α → Answer α × Channel α
  | .push value => c.write (.item value)
  | .close => c.write .close
  | .fail e => c.write (.fail e)
  | .resume => c.resume
  | .withdraw => (.done, c.withdraw)
  | .dropWriter => (.done, { c with queue := c.queue.dropWriter })
  | .recv => c.recv
  | .isFinished => c.handle (.flag c.queue.finished, c)
  | .collectAll => c.handle (.done, { c with reader := some (.collecting []) })
  | .stream => c.handle (.done, { c with reader := some .streaming })
  | .dropReader => (.done, c.dropReader)
  | .cancel => (.done, { c with cancelled := true })

/-! ## Reading on -/

/-- Can the reader be given more after this answer without waiting for it? -/
def Answer.goesOn : Answer α → Bool
  | .received (.item _) | .received (.error _) => true
  | _ => false

/-- Read on until there is nothing more at once, or nothing more at all, at most so many times. -/
def reads : Nat → Channel α → List (Answer α) × Channel α
  | 0, c => ([], c)
  | n + 1, c =>
    let (answer, c) := c.perform .recv
    if answer.goesOn then
      let (answers, c) := reads n c
      (answer :: answers, c)
    else ([answer], c)

/-- What happens when the reader is given the time to read all there is: a poll of what collects, or
polls of a stream until it waits or is over. -/
def readOn (c : Channel α) : List (Answer α) × Channel α := reads (c.queue.buffer.length + 2) c

/-! ## What the operations do -/

variable {c : Channel α}

/-- A reader that is used for anything takes the next entry. -/
theorem recv_of_use (use : ReaderUse α) (huse : use ≠ .spent) {r : Received α} {q : Queue α}
    (hread : c.queue.recv c.cancelled = (r, q)) :
    ({ c with reader := some use } : Channel α).recv = ((use.take r).1, { c with
      queue := if ReaderUse.isLive (use.take r).2 then q else q.dropReader
      reader := (use.take r).2 }) := by
  cases use with
  | spent => exact absurd rfl huse
  | entries | collecting items | streaming => simp only [recv, hread]

end Channel

end Sidecar
