import Sidecar.Submission.Intake

/-!
# Payloads in their queues

`Queue.Carries` forgets how a payload was cut into chunks: it says which bytes the reader of a
payload's queue has still to see, and whether the end comes after them. The call's two operations
keep it (`Queue.Carries.push`, `Queue.Carries.close`), and `Queue.Carries.drain` says what a
submission can find when it reads the next entry. An error is not among these, and neither is a
queue that was abandoned: a payload that a living call writes breaks off only with the call.
-/

namespace Sidecar

/-- Reading a payload waits exactly for the next entry of its queue. -/
theorem drain_waiting_iff {store : Store} {stopped : Bool} {what : String} {received : Bytes}
    {q : Queue Bytes} :
    (drain store stopped what received q).1 = .waiting ↔ (q.recv stopped).1 = .pending := by
  unfold drain
  cases q.recv stopped with
  | mk got q' =>
    cases got with
    | item chunk =>
      simp only [reduceCtorEq, iff_false]
      split <;> simp
    | pending | ended | error e => simp

/-- The reader of the queue has still to see the bytes `rest`, and then the end if the queue is
closed; if it is not, more can come. -/
structure Queue.Carries (q : Queue Bytes) (rest : Bytes) (closed : Bool) : Prop where
  capacity : q.capacity = none
  writer : q.writerGone = closed
  reader : q.readerGone = false
  finished : q.finished = false
  entries : ∃ chunks : List Bytes, chunks.flatten = rest ∧
    q.buffer = chunks.map .item ++ if closed then [.close] else []

namespace Queue.Carries

variable {q : Queue Bytes} {rest : Bytes} {closed : Bool}

/-- A new queue carries nothing yet. -/
theorem unbounded : (Queue.unbounded : Queue Bytes).Carries [] false :=
  ⟨rfl, rfl, rfl, rfl, [], rfl, rfl⟩

/-- An open payload takes more data. -/
theorem push (h : q.Carries rest false) (data : Bytes) :
    q.send false (.item data) = (.landed, { q with buffer := q.buffer ++ [.item data] }) ∧
      ({ q with buffer := q.buffer ++ [.item data] } : Queue Bytes).Carries (rest ++ data)
        false := by
  obtain ⟨chunks, hrest, hbuf⟩ := h.entries
  refine ⟨send_of_hasRoom h.reader (hasRoom_of_capacity_none h.capacity) _, h.capacity, h.writer,
    h.reader, h.finished, chunks ++ [data], ?_, ?_⟩
  · simp [hrest]
  · simp [hbuf]

/-- An open payload takes its end, and then its writer goes. -/
theorem close (h : q.Carries rest false) :
    q.send false .close = (.landed, { q with buffer := q.buffer ++ [.close] }) ∧
      ({ q with buffer := q.buffer ++ [.close] } : Queue Bytes).dropWriter.Carries rest true := by
  obtain ⟨chunks, hrest, hbuf⟩ := h.entries
  refine ⟨send_of_hasRoom h.reader (hasRoom_of_capacity_none h.capacity) _, h.capacity, rfl,
    h.reader, h.finished, chunks, hrest, ?_⟩
  simp [dropWriter, hbuf]

/-- What the reader finds: a chunk of what is left, the end of a closed queue of which nothing is
left, or nothing yet. -/
theorem recv (h : q.Carries rest closed) :
    (∃ chunk rest' q', rest = chunk ++ rest' ∧ q.recv false = (.item chunk, q') ∧
      q'.Carries rest' closed) ∨
    (rest = [] ∧ closed = true ∧ ∃ q', q.recv false = (.ended, q')) ∨
    (rest = [] ∧ closed = false ∧ q.recv false = (.pending, q)) := by
  obtain ⟨chunks, hrest, hbuf⟩ := h.entries
  cases chunks with
  | cons chunk chunks =>
    refine .inl ⟨chunk, chunks.flatten, _, by simpa using hrest.symm, recv_item h.finished hbuf,
      h.capacity, h.writer, h.reader, h.finished, chunks, rfl, rfl⟩
  | nil =>
    cases closed with
    | true => exact .inr (.inl ⟨by simpa using hrest.symm, rfl, _, recv_close h.finished hbuf⟩)
    | false =>
      exact .inr (.inr ⟨by simpa using hrest.symm, rfl, recv_pending h.finished hbuf h.writer⟩)

/-- Reading the next entry of a payload: a chunk, which may be one too many; the end; or nothing
yet. -/
theorem drain (h : q.Carries rest closed) (store : Store) (what : String) (received : Bytes) :
    (∃ chunk rest' q', rest = chunk ++ rest' ∧ q'.Carries rest' closed ∧
      ((store.isTooLong (received ++ chunk).length = true ∧ ∃ cause,
          Sidecar.drain store false what received q = (.failed cause, q')) ∨
        (store.isTooLong (received ++ chunk).length = false ∧
          Sidecar.drain store false what received q = (.going (received ++ chunk), q')))) ∨
    (rest = [] ∧ closed = true ∧
      ∃ q', Sidecar.drain store false what received q = (.complete, q')) ∨
    (rest = [] ∧ closed = false ∧ Sidecar.drain store false what received q = (.waiting, q)) := by
  rcases h.recv with ⟨chunk, rest', q', hrest, hrecv, hq'⟩ | ⟨hrest, hcl, q', hrecv⟩ |
    ⟨hrest, hcl, hrecv⟩
  · refine .inl ⟨chunk, rest', q', hrest, hq', ?_⟩
    cases hlong : store.isTooLong (received ++ chunk).length with
    | true => exact .inl ⟨rfl, _, by simp only [Sidecar.drain, hrecv, hlong]; rfl⟩
    | false => exact .inr ⟨rfl, by simp only [Sidecar.drain, hrecv, hlong]; rfl⟩
  · exact .inr (.inl ⟨hrest, hcl, q', by simp [Sidecar.drain, hrecv]⟩)
  · exact .inr (.inr ⟨hrest, hcl, by simp [Sidecar.drain, hrecv]⟩)

end Queue.Carries

end Sidecar
