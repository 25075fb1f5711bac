import Sidecar.Proofs.Splitting.Plan

/-!
# What a reader gets out of a queue

A `Reading` is what the reader of a queue has got so far: items, and then an end. `Queue.Delivers`
says what the queue still owes that reader: what was read and what is still in the queue make up the
sequence that was put in, and its end, if there is one, comes after all of it. The writer's
operations add to the sequence (`Queue.Delivers.push`, `Queue.Delivers.finish`), and reading takes
from it (`Queue.Delivers.recv`).
-/

namespace Sidecar

/-- What has come out of a queue with one read. -/
def Received.items {α : Type} : Received α → List α
  | .item a => [a]
  | .ended | .error _ | .pending => []

/-- What the reader of a queue has got: items, and how the sequence ended, once it has. -/
structure Reading (α : Type) where
  got : List α
  outcome : Option SequenceEnd

namespace Reading

variable {α : Type}

/-- Nothing was read. -/
def start : Reading α := ⟨[], none⟩

/-- Take note of how the sequence ended. Only the first end counts. -/
def close (r : Reading α) (outcome : SequenceEnd) : Reading α :=
  { r with outcome := r.outcome.or (some outcome) }

/-- Take note of what reading has come to. A read that found nothing is still to be answered. -/
def record (r : Reading α) : Received α → Reading α
  | .item a => { r with got := r.got ++ [a] }
  | .ended => r.close (.ok ())
  | .error e => r.close (.error e)
  | .pending => r

theorem got_record (r : Reading α) (received : Received α) :
    (r.record received).got = r.got ++ received.items := by
  cases received <;> simp [record, close, Received.items]

end Reading

/-- The entry with which a sequence ends. -/
def SequenceEnd.entry {α : Type} : SequenceEnd → Entry α
  | .ok () => .close
  | .error e => .fail e

namespace Queue

variable {α : Type}

/-- The reader of the queue gets all of a sequence, and then its end. While there is no end, more
can come. -/
structure Delivers (q : Queue α) (r : Reading α) (content : List α)
    (outcome : Option SequenceEnd) : Prop where
  reader : q.readerGone = false
  writer : outcome = none → q.writerGone = false
  entries : (r.outcome = none ∧ q.finished = false ∧ ∃ pending, content = r.got ++ pending ∧
      q.buffer = pending.map .item ++ (outcome.map SequenceEnd.entry).toList) ∨
    (r.outcome = outcome ∧ outcome ≠ none ∧ q.finished = true ∧ content = r.got ∧ q.buffer = [])

namespace Delivers

variable {q : Queue α} {r : Reading α} {content : List α} {outcome : Option SequenceEnd}

/-- A new queue delivers nothing yet. -/
theorem unbounded : (Queue.unbounded : Queue α).Delivers .start [] none :=
  ⟨rfl, fun _ => rfl, .inl ⟨rfl, rfl, [], rfl, rfl⟩⟩

/-- A new queue delivers nothing yet. -/
theorem bounded (capacity : Nat) : (Queue.bounded capacity : Queue α).Delivers .start [] none :=
  ⟨rfl, fun _ => rfl, .inl ⟨rfl, rfl, [], rfl, rfl⟩⟩

/-- While there is no end, the reader has not seen one. -/
theorem going (h : q.Delivers r content none) :
    r.outcome = none ∧ q.finished = false ∧ ∃ pending, content = r.got ++ pending ∧
      q.buffer = pending.map .item := by
  rcases h.entries with ⟨houtcome, hfinished, pending, hcontent, hbuffer⟩ | ⟨-, hne, -⟩
  · exact ⟨houtcome, hfinished, pending, hcontent, by simpa using hbuffer⟩
  · exact absurd rfl hne

/-- What was read is how the sequence begins. -/
theorem got_prefix (h : q.Delivers r content outcome) : r.got <+: content := by
  rcases h.entries with ⟨-, -, pending, rfl, -⟩ | ⟨-, -, -, rfl, -⟩
  · exact List.prefix_append _ _
  · exact List.prefix_rfl

/-- A reader that has seen the end has got the whole sequence, and the end is the one it has. -/
theorem of_outcome (h : q.Delivers r content outcome) {o : SequenceEnd}
    (ho : r.outcome = some o) : r.got = content ∧ outcome = some o := by
  rcases h.entries with ⟨hnone, -⟩ | ⟨houtcome, -, -, rfl, -⟩
  · rw [hnone] at ho
    cases ho
  · exact ⟨rfl, houtcome.symm.trans ho⟩

/-- Whether an entry is still outstanding does not matter to the reader. -/
theorem setWaiting (h : q.Delivers r content outcome) (waiting : Option (Entry α)) :
    ({ q with waiting } : Queue α).Delivers r content outcome := ⟨h.reader, h.writer, h.entries⟩

/-- The writer goes after the end. -/
theorem dropWriter {o : SequenceEnd} (h : q.Delivers r content (some o)) :
    q.dropWriter.Delivers r content (some o) := ⟨h.reader, nofun, h.entries⟩

/-- An item goes in where there is room. -/
theorem push (h : q.Delivers r content none) (hroom : q.hasRoom = true) (a : α) :
    q.send false (.item a) = (.landed, { q with buffer := q.buffer ++ [.item a] }) ∧
      ({ q with buffer := q.buffer ++ [.item a] } : Queue α).Delivers r (content ++ [a]) none := by
  obtain ⟨houtcome, hfinished, pending, hcontent, hbuffer⟩ := h.going
  refine ⟨send_of_hasRoom h.reader hroom _, h.reader, h.writer,
    .inl ⟨houtcome, hfinished, pending ++ [a], ?_, ?_⟩⟩
  · simp [hcontent]
  · simp [hbuffer]

/-- The end goes in where there is room. -/
theorem finish (h : q.Delivers r content none) (hroom : q.hasRoom = true) (o : SequenceEnd) :
    q.send false o.entry = (.landed, { q with buffer := q.buffer ++ [o.entry] }) ∧
      ({ q with buffer := q.buffer ++ [o.entry] } : Queue α).Delivers r content (some o) := by
  obtain ⟨houtcome, hfinished, pending, hcontent, hbuffer⟩ := h.going
  refine ⟨send_of_hasRoom h.reader hroom _, h.reader, nofun,
    .inl ⟨houtcome, hfinished, pending, hcontent, ?_⟩⟩
  simp [hbuffer]

/-- Reading takes from the sequence, or waits for more of it. -/
theorem recv (h : q.Delivers r content outcome) :
    (q.recv false).2.Delivers (r.record (q.recv false).1) content outcome := by
  rcases h.entries with ⟨hnone, hfinished, pending, hcontent, hbuffer⟩ |
    ⟨houtcome, hsome, hfinished, hcontent, hbuffer⟩
  · cases pending with
    | cons a pending =>
      rw [recv_item hfinished hbuffer]
      refine ⟨h.reader, h.writer, .inl ⟨hnone, hfinished, pending, ?_, rfl⟩⟩
      simp [hcontent, Reading.record]
    | nil =>
      cases outcome with
      | none =>
        rw [recv_pending hfinished hbuffer (h.writer rfl)]
        exact h
      | some o =>
        rcases o with e | ⟨⟨⟩⟩
        · rw [recv_fail hfinished hbuffer]
          refine ⟨h.reader, h.writer, .inr ⟨?_, nofun, rfl, ?_, rfl⟩⟩
          · simp [Reading.record, Reading.close, hnone]
          · simp [Reading.record, Reading.close, hcontent]
        · rw [recv_close hfinished hbuffer]
          refine ⟨h.reader, h.writer, .inr ⟨?_, nofun, rfl, ?_, rfl⟩⟩
          · simp [Reading.record, Reading.close, hnone]
          · simp [Reading.record, Reading.close, hcontent]
  · have hended : q.recv false = (.ended, q) := by simp [Queue.recv, hfinished]
    obtain ⟨o, rfl⟩ := Option.ne_none_iff_exists'.1 hsome
    rw [hended]
    refine ⟨h.reader, h.writer, .inr ⟨?_, hsome, hfinished, ?_, hbuffer⟩⟩
    · simp [Reading.record, Reading.close, houtcome]
    · simp [Reading.record, Reading.close, hcontent]

/-- A reader that gets nothing new has got all there is, and its end if there is one. -/
theorem of_recv_eq (h : q.Delivers r content outcome) (hrecv : (q.recv false).2 = q) :
    r = ⟨content, outcome⟩ ∧ q.buffer = [] := by
  obtain ⟨got, seen⟩ := r
  rcases h.entries with ⟨hnone, hfinished, pending, hcontent, hbuffer⟩ |
    ⟨houtcome, -, -, hcontent, hbuffer⟩
  · simp only at hnone hcontent
    subst hnone
    cases pending with
    | cons a pending =>
      rw [recv_item hfinished hbuffer] at hrecv
      have := congrArg (fun q => q.buffer.length) hrecv
      simp [hbuffer] at this
    | nil =>
      rw [List.append_nil] at hcontent
      subst hcontent
      cases outcome with
      | none => exact ⟨rfl, hbuffer⟩
      | some o =>
        rcases o with e | ⟨⟨⟩⟩
        · rw [recv_fail hfinished hbuffer] at hrecv
          have := congrArg Queue.finished hrecv
          simp [hfinished] at this
        · rw [recv_close hfinished hbuffer] at hrecv
          have := congrArg Queue.finished hrecv
          simp [hfinished] at this
  · simp only at houtcome hcontent
    subst houtcome hcontent
    exact ⟨rfl, hbuffer⟩

end Delivers

end Queue

end Sidecar
