import Sidecar.Proofs.Splitting.Delivery
import Sidecar.Queue.Channel

/-!
# What is noted about a queue

A `Ledger` is what can be noted about a queue from the operations on its two handles and their
answers alone: the items whose push landed, the end that landed, what the reader was answered and
what it is used for, who has gone away, and whether the queue was cancelled. Nothing of the queue
itself occurs in it: no buffer, no slots, no mark that the queue is finished and nothing that was
collected.

`Ledger.next` is what such notes leave for the next read. The items come in the order in which they
were pushed, and the end comes after all of them; a writer that has gone without an end is seen as
an error; and a cancelled queue yields nothing but that it was cancelled. `Ledger.told` is how the
reader is told: the same when it is read entry by entry and as a stream, and in one answer at the
end where it collects.
-/

namespace Sidecar

variable {α : Type}

/-! ## Answers -/

namespace Received

/-- The end this answer reports, if it reports one. -/
def end? : Received α → Option SequenceEnd
  | .ended => some (.ok ())
  | .error e => some (.error e)
  | .item _ | .pending => none

/-- What the answer adds to what the reader has heard. A read that found nothing is still to be
answered. -/
def heard : Received α → List (Received α)
  | .pending => []
  | r => [r]

end Received

/-- The answer that reports an end. -/
def SequenceEnd.answer : SequenceEnd → Received α
  | .ok () => .ended
  | .error e => .error e

/-- Take the operations one after the other, each with its answer. -/
def Channel.transcript (c : Channel α) :
    List (Channel.Operation α) → List (Channel.Operation α × Channel.Answer α)
  | [] => []
  | op :: ops => (op, (c.perform op).1) :: transcript (c.perform op).2 ops

/-- The queue after these operations. -/
def Channel.after (c : Channel α) (ops : List (Channel.Operation α)) : Channel α :=
  ops.foldl (fun c op => (c.perform op).2) c

/-- A queue of which nothing was used yet, with this many slots or without a limit. -/
def Channel.start : Option Nat → Channel α
  | none => .ofQueue .unbounded
  | some slots => .ofQueue (.bounded slots)

/-! ## Notes -/

/-- What was noted about the use of a reader: it is read entry by entry; it collects what comes
after so many items; it is read as a stream; the stream has reported its end; it has gone away. -/
inductive ReaderNote where
  | entries
  | collecting (before : Nat)
  | streaming
  | spent
  | gone

namespace ReaderNote

/-- Has the reader gone, or is it used up? -/
def isGone : ReaderNote → Bool
  | spent | gone => true
  | entries | collecting _ | streaming => false

/-- What the reader is used for after it was told something. What collects is done with an end, and
a stream that has reported a clean one is used up. -/
def after : ReaderNote → Received α → ReaderNote
  | collecting _, .ended | collecting _, .error _ => gone
  | streaming, .ended => spent
  | note, _ => note

/-- How a reader that has received these items is told what comes next. What collects answers an end
with all it has collected, and an error with nothing but the error. -/
def tell (received : List α) : ReaderNote → Received α → Channel.Answer α
  | gone, _ => .gone
  | spent, _ => .panicked
  | collecting before, .ended => .collected (.ok (received.drop before))
  | collecting _, .error e => .collected (.error e)
  | entries, r | streaming, r | collecting _, r => .received r

end ReaderNote

/-- What was noted about a queue: the entry that is outstanding, the items whose push landed, the
end that landed, whether the writer has gone away, what the reader was told, what the reader is used
for, and whether the queue was cancelled. -/
structure Ledger (α : Type) where
  outstanding : Option (Entry α)
  pushed : List α
  ending : Option SequenceEnd
  writerGone : Bool
  heard : List (Received α)
  reader : ReaderNote
  cancelled : Bool

namespace Ledger

/-- Nothing was noted. -/
def empty : Ledger α := ⟨none, [], none, false, [], .entries, false⟩

/-- Has the reader gone, or is it used up? -/
def readerGone (l : Ledger α) : Bool := l.reader.isGone

/-- The items the reader has received. -/
def received (l : Ledger α) : List α := l.heard.flatMap Received.items

/-- The end the reader was told first. -/
def terminal? (l : Ledger α) : Option SequenceEnd := l.heard.findSome? Received.end?

/-- Note what became of an entry. An end takes the writer with it unless it is outstanding. -/
def settle (l : Ledger α) : Entry α → Sent → Ledger α
  | entry, .suspended => { l with outstanding := some entry }
  | .item a, .landed => { l with outstanding := none, pushed := l.pushed ++ [a] }
  | .close, .landed => { l with outstanding := none, ending := some (.ok ()), writerGone := true }
  | .fail e, .landed =>
    { l with outstanding := none, ending := some (.error e), writerGone := true }
  | .item _, .refused _ => { l with outstanding := none }
  | .close, .refused _ | .fail _, .refused _ =>
    { l with outstanding := none, writerGone := true }

/-- Note that the outstanding entry is given up. An end takes the writer with it. -/
def withdraw (l : Ledger α) : Ledger α :=
  match l.outstanding with
  | none => l
  | some (.item _) => { l with outstanding := none }
  | some .close | some (.fail _) => { l with outstanding := none, writerGone := true }

/-- Note what the reader was told. -/
def hear (l : Ledger α) (r : Received α) : Ledger α :=
  { l with heard := l.heard ++ r.heard, reader := l.reader.after r }

/-- Note an operation and its answer. -/
def note (l : Ledger α) : Channel.Operation α × Channel.Answer α → Ledger α
  | (.push a, .sent o) => l.settle (.item a) o
  | (.close, .sent o) => l.settle .close o
  | (.fail e, .sent o) => l.settle (.fail e) o
  | (.resume, .sent o) =>
    match l.outstanding with
    | some entry => l.settle entry o
    | none => l
  | (.withdraw, _) => l.withdraw
  | (.dropWriter, _) => { l with outstanding := none, writerGone := true }
  | (.recv, .received r) => l.hear r
  | (.recv, .collected (.ok _)) => l.hear .ended
  | (.recv, .collected (.error e)) => l.hear (.error e)
  | (.collectAll, .done) => { l with reader := .collecting l.received.length }
  | (.stream, .done) => { l with reader := .streaming }
  | (.dropReader, _) => { l with reader := .gone }
  | (.cancel, _) => { l with cancelled := true }
  | _ => l

/-- What is noted of a transcript. -/
def of (transcript : List (Channel.Operation α × Channel.Answer α)) : Ledger α :=
  transcript.foldl note empty

/-- What the notes leave for the next read. -/
def next (l : Ledger α) : Received α :=
  match l.terminal? with
  | some _ => .ended
  | none =>
    if l.cancelled then .error .cancelled
    else
      match l.pushed[l.received.length]? with
      | some a => .item a
      | none =>
        match l.ending with
        | some o => o.answer
        | none => if l.writerGone then .error .abandoned else .pending

/-- The answer the notes leave for the next read. -/
def told (l : Ledger α) : Channel.Answer α := l.reader.tell l.received l.next

/-- The reader has heard items, then one end, and from then on that there is nothing more. -/
def InOrder (l : Ledger α) : Prop :=
  match l.terminal? with
  | none => l.heard = l.received.map .item
  | some o => ∃ n, l.heard = l.received.map .item ++ o.answer :: List.replicate n .ended

/-- The notes bear out an end the reader was told. A clean end was landed by the writer, after
everything that was received. An error was landed by the writer in the same way; or it says that the
writer went away without an end; or that the queue was cancelled. -/
def BearsOut (l : Ledger α) : SequenceEnd → Prop
  | .ok () => l.ending = some (.ok ()) ∧ l.received = l.pushed
  | .error e =>
    (l.ending = some (.error e) ∧ l.received = l.pushed) ∨
    (e = .abandoned ∧ l.writerGone = true ∧ l.ending = none ∧ l.received = l.pushed) ∨
    (e = .cancelled ∧ l.cancelled = true)

end Ledger

end Sidecar
