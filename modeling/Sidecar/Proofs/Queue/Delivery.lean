import Sidecar.Proofs.Queue.Ledger

/-!
# What a queue delivers

A queue is as the notes on it say (`Channel.Keeps`), and so is the use of its reader
(`Channel.Accords`). Every operation on the handles keeps it so, whatever it answers
(`Channel.Accords.perform`). What a read comes to can be told from the notes (`Channel.Reads`).
-/

namespace Sidecar

variable {α : Type}

/-! ## Notes on what was heard -/

namespace Ledger

variable {l : Ledger α}

theorem received_hear (l : Ledger α) (r : Received α) :
    (l.hear r).received = l.received ++ r.items := by
  cases r <;> simp [hear, received, Received.heard, Received.items]

theorem terminal?_hear (l : Ledger α) (r : Received α) :
    (l.hear r).terminal? = l.terminal?.or r.end? := by
  cases r <;> simp [hear, terminal?, Received.heard, Received.end?, List.findSome?_append]

/-- What is heard next keeps the order if there is nothing after an end. -/
theorem InOrder.hear (h : l.InOrder) {r : Received α} (hr : l.terminal?.isSome → r = .ended) :
    (l.hear r).InOrder := by
  unfold InOrder at h ⊢
  rw [received_hear, terminal?_hear]
  cases hterminal : l.terminal? with
  | some o =>
    obtain rfl := hr (by simp [hterminal])
    rw [hterminal] at h
    obtain ⟨n, hheard⟩ := h
    refine ⟨n + 1, ?_⟩
    simp [Ledger.hear, hheard, Received.heard, Received.items, List.replicate_succ']
  | none =>
    rw [hterminal] at h
    cases r with
    | item a => simp [Ledger.hear, h, Received.heard, Received.items, Received.end?]
    | pending => simp [Ledger.hear, h, Received.heard, Received.items, Received.end?]
    | ended =>
      exact ⟨0, by simp [Ledger.hear, h, Received.heard, Received.items, SequenceEnd.answer]⟩
    | error e =>
      exact ⟨0, by simp [Ledger.hear, h, Received.heard, Received.items, SequenceEnd.answer]⟩

end Ledger

/-! ## A queue and its notes -/

/-- The queue is as the notes on it say. -/
structure Channel.Keeps (c : Channel α) (l : Ledger α) : Prop where
  outstanding : c.queue.waiting = l.outstanding
  writer : c.queue.writerGone = l.writerGone
  reader : c.queue.readerGone = l.readerGone
  cancelled : c.cancelled = l.cancelled
  ending : l.ending.isSome → l.writerGone = true
  finished : l.readerGone = false → c.queue.finished = l.terminal?.isSome
  owed : l.readerGone = false → l.terminal? = none → ∃ pending, l.pushed = l.received ++ pending ∧
    c.queue.buffer = pending.map .item ++ (l.ending.map SequenceEnd.entry).toList
  order : l.InOrder
  received : l.received <+: l.pushed
  terminal : ∀ o, l.terminal? = some o → l.BearsOut o

/-- What a reader is used for, given the items it has received. -/
def ReaderNote.use (received : List α) : ReaderNote → Option (ReaderUse α)
  | entries => some .entries
  | collecting before => some (.collecting (received.drop before))
  | streaming => some .streaming
  | spent => some .spent
  | gone => none

namespace ReaderNote

/-- A reader that has not gone has its end of the queue, and is told as it is used. -/
theorem exists_use {note : ReaderNote} (h : note.isGone = false) {received : List α}
    (hsince : ∀ before, note = .collecting before → before ≤ received.length) (r : Received α) :
    ∃ use, note.use received = some use ∧ use ≠ .spent ∧
      use.take r = (note.tell received r, (note.after r).use (received ++ r.items)) := by
  cases note with
  | gone | spent => cases h
  | entries => exact ⟨.entries, rfl, nofun, by cases r <;> rfl⟩
  | streaming => exact ⟨.streaming, rfl, nofun, by cases r <;> rfl⟩
  | collecting before =>
    refine ⟨.collecting (received.drop before), rfl, nofun, ?_⟩
    have hdrop : ∀ more : List α, (received ++ more).drop before = received.drop before ++ more :=
      fun more => List.drop_append_of_le_length (hsince before rfl)
    cases r with
    | ended | error e => rfl
    | item a | pending => simp [ReaderUse.take, tell, after, use, Received.items, hdrop]

theorem isLive_use (note : ReaderNote) (received : List α) :
    ReaderUse.isLive (note.use received) = !note.isGone := by
  cases note <;> rfl

/-- Something is collected only by a reader that has begun to before. -/
theorem after_eq_collecting {note : ReaderNote} {r : Received α} {before : Nat}
    (h : note.after r = .collecting before) : note = .collecting before := by
  cases note <;> cases r <;> first | exact h | cases h

end ReaderNote

/-- The queue is as the notes on it say, and its reader is used as they say. -/
structure Channel.Accords (c : Channel α) (l : Ledger α) : Prop where
  keeps : c.Keeps l
  reader : c.reader = l.reader.use l.received
  since : ∀ before, l.reader = .collecting before → before ≤ l.received.length

namespace Channel

/-- A queue of which nothing was used has no notes. -/
theorem accords_start (capacity : Option Nat) : (start capacity : Channel α).Accords .empty := by
  cases capacity <;>
    exact ⟨⟨rfl, rfl, rfl, rfl, nofun, fun _ => rfl, fun _ _ => ⟨[], rfl, rfl⟩, rfl,
      List.prefix_rfl, nofun⟩, rfl, nofun⟩

namespace Keeps

variable {c : Channel α} {l : Ledger α}

/-- While the writer is there the reader was told of no end but that the queue was cancelled. -/
theorem cancelled_of_terminal (h : c.Keeps l) (hwriter : c.queue.writerGone = false)
    {o : SequenceEnd} (ho : l.terminal? = some o) : o = .error .cancelled ∧ l.cancelled = true := by
  have hgone : l.writerGone ≠ true := by rw [← h.writer, hwriter]; simp
  have hending : ∀ o, l.ending ≠ some o := fun o heq => hgone (h.ending (by simp [heq]))
  have hbears := h.terminal o ho
  cases o with
  | ok u => exact absurd hbears.1 (hending _)
  | error e =>
    rcases hbears with ⟨heq, -⟩ | ⟨-, heq, -⟩ | ⟨rfl, hcancelled⟩
    · exact absurd heq (hending _)
    · exact absurd heq hgone
    · exact ⟨rfl, hcancelled⟩

/-- While the writer is there no end has landed. -/
theorem ending_eq_none (h : c.Keeps l) (hwriter : c.queue.writerGone = false) :
    l.ending = none := by
  cases hending : l.ending with
  | none => rfl
  | some o =>
    have := h.ending (by simp [hending])
    rw [← h.writer, hwriter] at this
    cases this

/-- The outstanding entry is given up. -/
theorem release (h : c.Keeps l) :
    ({ c with queue := { c.queue with waiting := none } } : Channel α).Keeps
      { l with outstanding := none } :=
  ⟨rfl, h.writer, h.reader, h.cancelled, h.ending, h.finished, h.owed, h.order, h.received,
    h.terminal⟩

/-- An entry is outstanding. -/
theorem suspend (h : c.Keeps l) (entry : Entry α) :
    ({ c with queue := { c.queue with waiting := some entry } } : Channel α).Keeps
      { l with outstanding := some entry } :=
  ⟨rfl, h.writer, h.reader, h.cancelled, h.ending, h.finished, h.owed, h.order, h.received,
    h.terminal⟩

/-- The writer goes away. -/
theorem dropWriter (h : c.Keeps l) :
    ({ c with queue := c.queue.dropWriter } : Channel α).Keeps
      { l with outstanding := none, writerGone := true } := by
  refine ⟨rfl, rfl, h.reader, h.cancelled, fun _ => rfl, h.finished, h.owed, h.order, h.received,
    fun o ho => ?_⟩
  have hbears := h.terminal o ho
  cases o with
  | ok u => exact hbears
  | error e =>
    rcases hbears with hfail | ⟨he, -, hending, hall⟩ | hcancelled
    · exact .inl hfail
    · exact .inr (.inl ⟨he, rfl, hending, hall⟩)
    · exact .inr (.inr hcancelled)

/-- An item lands. -/
theorem push (h : c.Keeps l) (hwriter : c.queue.writerGone = false) (a : α) :
    ({ c with queue := { c.queue with buffer := c.queue.buffer ++ [.item a], waiting := none } } :
      Channel α).Keeps { l with outstanding := none, pushed := l.pushed ++ [a] } := by
  refine ⟨rfl, h.writer, h.reader, h.cancelled, h.ending, h.finished, ?_, h.order, ?_,
    fun o ho => ?_⟩
  · intro hreader hterminal
    obtain ⟨pending, hpushed, hbuffer⟩ := h.owed hreader hterminal
    have hending := h.ending_eq_none hwriter
    refine ⟨pending ++ [a], ?_, ?_⟩
    · show l.pushed ++ [a] = l.received ++ (pending ++ [a])
      rw [hpushed, List.append_assoc]
    · simp [hbuffer, hending]
  · exact h.received.trans (List.prefix_append _ _)
  · obtain ⟨rfl, hcancelled⟩ := h.cancelled_of_terminal hwriter ho
    exact .inr (.inr ⟨rfl, hcancelled⟩)

/-- An end lands, and the writer goes away. -/
theorem finish (h : c.Keeps l) (hwriter : c.queue.writerGone = false) (o : SequenceEnd) :
    ({ c with queue := { c.queue with buffer := c.queue.buffer ++ [o.entry],
                                      waiting := none }.dropWriter } : Channel α).Keeps
      { l with outstanding := none, ending := some o, writerGone := true } := by
  refine ⟨rfl, rfl, h.reader, h.cancelled, fun _ => rfl, h.finished, ?_, h.order, h.received,
    fun o ho => ?_⟩
  · intro hreader hterminal
    obtain ⟨pending, hpushed, hbuffer⟩ := h.owed hreader hterminal
    have hending := h.ending_eq_none hwriter
    refine ⟨pending, hpushed, ?_⟩
    simp [Queue.dropWriter, hbuffer, hending]
  · obtain ⟨rfl, hcancelled⟩ := h.cancelled_of_terminal hwriter ho
    exact .inr (.inr ⟨rfl, hcancelled⟩)

/-- The writer puts in an entry, be it the outstanding one or another one if there is none. -/
theorem settle (h : c.Keeps l) (hwriter : c.queue.writerGone = false) (entry : Entry α) :
    ∃ o, (c.settle entry (c.queue.resume c.cancelled entry)).1 = .sent o ∧
      (c.settle entry (c.queue.resume c.cancelled entry)).2.Keeps (l.settle entry o) := by
  have hrefused : ∀ e, (c.settle entry (.refused e, { c.queue with waiting := none })).2.Keeps
      (l.settle entry (.refused e)) := fun e => by
    cases entry with
    | item a => exact h.release
    | close | fail e' => exact h.dropWriter
  cases hcancelled : c.cancelled with
  | true => exact ⟨.refused .cancelled, rfl, hrefused _⟩
  | false =>
    cases hreader : c.queue.readerGone with
    | true =>
      rw [Queue.resume_of_readerGone hreader]
      exact ⟨.refused .readerGone, rfl, hrefused _⟩
    | false =>
      cases hroom : c.queue.hasRoom with
      | true =>
        rw [Queue.resume_of_hasRoom hreader hroom]
        refine ⟨.landed, rfl, ?_⟩
        cases entry with
        | item a => exact h.push hwriter a
        | close => exact h.finish hwriter (.ok ())
        | fail e => exact h.finish hwriter (.error e)
      | false =>
        rw [Queue.resume_of_full hreader hroom]
        refine ⟨.suspended, rfl, ?_⟩
        cases entry with
        | item a => exact h.suspend _
        | close => exact h.suspend _
        | fail e => exact h.suspend _

end Keeps

/-! ## Reading -/

/-- What a read comes to, by the notes on the queue: the reader was told the end before; the queue
is cancelled; the next item; the end the writer has landed; the writer has gone away without one; or
nothing yet. -/
inductive Reads (c : Channel α) (l : Ledger α) : Received α → Queue α → Prop where
  | past {o : SequenceEnd} (hterminal : l.terminal? = some o) : Reads c l .ended c.queue
  | cancelled (hterminal : l.terminal? = none) (hcancelled : l.cancelled = true) :
      Reads c l (.error .cancelled) { c.queue with finished := true }
  | item {a : α} {pending : List α} (hterminal : l.terminal? = none) (hgoing : l.cancelled = false)
      (hpushed : l.pushed = l.received ++ a :: pending) :
      Reads c l (.item a) { c.queue with
        buffer := pending.map .item ++ (l.ending.map SequenceEnd.entry).toList }
  | ends {o : SequenceEnd} (hterminal : l.terminal? = none) (hgoing : l.cancelled = false)
      (hpushed : l.pushed = l.received) (hending : l.ending = some o) :
      Reads c l o.answer { c.queue with buffer := [], finished := true }
  | abandoned (hterminal : l.terminal? = none) (hgoing : l.cancelled = false)
      (hpushed : l.pushed = l.received) (hending : l.ending = none)
      (hwriter : l.writerGone = true) :
      Reads c l (.error .abandoned) { c.queue with finished := true }
  | pending (hterminal : l.terminal? = none) (hgoing : l.cancelled = false)
      (hpushed : l.pushed = l.received) (hending : l.ending = none)
      (hwriter : l.writerGone = false) : Reads c l .pending c.queue

variable {c : Channel α} {l : Ledger α}

/-- A queue that is as its notes say is read as they say. -/
theorem Keeps.reads (h : c.Keeps l) (hreader : c.queue.readerGone = false) :
    c.Reads l (c.queue.recv c.cancelled).1 (c.queue.recv c.cancelled).2 := by
  have hfinished := h.finished (h.reader ▸ hreader)
  cases hterminal : l.terminal? with
  | some o =>
    have hread : c.queue.recv c.cancelled = (.ended, c.queue) := by
      simp [Queue.recv, hfinished, hterminal]
    rw [hread]
    exact .past hterminal
  | none =>
    rw [hterminal] at hfinished
    obtain ⟨pending, hpushed, hbuffer⟩ := h.owed (h.reader ▸ hreader) hterminal
    rw [h.cancelled]
    cases hcancelled : l.cancelled with
    | true =>
      rw [Queue.recv_stopped hfinished]
      exact .cancelled hterminal hcancelled
    | false =>
      cases pending with
      | cons a pending =>
        rw [Queue.recv_item hfinished hbuffer]
        exact .item hterminal hcancelled hpushed
      | nil =>
        rw [List.append_nil] at hpushed
        rw [List.map_nil, List.nil_append] at hbuffer
        cases hending : l.ending with
        | some o =>
          rw [hending] at hbuffer
          have hread : c.queue.recv false =
              (o.answer, { c.queue with buffer := [], finished := true }) := by
            cases o with
            | ok u => exact Queue.recv_close hfinished hbuffer
            | error e => exact Queue.recv_fail hfinished hbuffer
          rw [hread]
          exact .ends hterminal hcancelled hpushed hending
        | none =>
          rw [hending] at hbuffer
          cases hwriter : c.queue.writerGone with
          | true =>
            rw [Queue.recv_abandoned hfinished hbuffer hwriter]
            exact .abandoned hterminal hcancelled hpushed hending (h.writer ▸ hwriter)
          | false =>
            rw [Queue.recv_pending hfinished hbuffer hwriter]
            exact .pending hterminal hcancelled hpushed hending (h.writer ▸ hwriter)

namespace Reads

variable {r : Received α} {q : Queue α}

theorem items_end (o : SequenceEnd) :
    (o.answer : Received α).items = [] ∧ (o.answer : Received α).end? = some o := by
  rcases o with e | u
  · exact ⟨rfl, rfl⟩
  · exact ⟨rfl, rfl⟩

/-- The answer is the one the notes leave for the next read. -/
theorem eq_next (h : c.Reads l r q) : r = l.next := by
  unfold Ledger.next
  cases h with
  | past hterminal => rw [hterminal]
  | cancelled hterminal hcancelled => simp [hterminal, hcancelled]
  | item hterminal hgoing hpushed => simp [hterminal, hgoing, hpushed]
  | ends hterminal hgoing hpushed hending => simp [hterminal, hgoing, hpushed, hending]
  | abandoned hterminal hgoing hpushed hending hwriter =>
    simp [hterminal, hgoing, hpushed, hending, hwriter]
  | pending hterminal hgoing hpushed hending hwriter =>
    simp [hterminal, hgoing, hpushed, hending, hwriter]

/-- Reading leaves the two ends of a queue and its outstanding entry alone. -/
theorem frame (h : c.Reads l r q) :
    q.waiting = c.queue.waiting ∧ q.writerGone = c.queue.writerGone ∧
      q.readerGone = c.queue.readerGone := by
  cases h <;> exact ⟨rfl, rfl, rfl⟩

/-- Only an item that was pushed is read. -/
theorem received (h : c.Reads l r q) (hpre : l.received <+: l.pushed) :
    l.received ++ r.items <+: l.pushed := by
  cases h with
  | @item a pending _ _ hpushed =>
    rw [hpushed]
    exact ⟨pending, by simp [Received.items]⟩
  | @ends o =>
    rw [(items_end o).1, List.append_nil]
    exact hpre
  | past | cancelled | abandoned | pending => simpa [Received.items] using hpre

/-- An end that is read is borne out. -/
theorem bearsOut (h : c.Reads l r q) (hterminal : l.terminal? = none) {o : SequenceEnd}
    (ho : r.end? = some o) : l.BearsOut o ∧ r.items = [] := by
  cases h with
  | past hsome =>
    rw [hterminal] at hsome
    cases hsome
  | cancelled _ hcancelled =>
    cases ho
    exact ⟨.inr (.inr ⟨rfl, hcancelled⟩), rfl⟩
  | item => cases ho
  | @ends o' _ _ hpushed hending =>
    obtain rfl : o' = o := Option.some.inj ((items_end o').2.symm.trans ho)
    refine ⟨?_, (items_end o').1⟩
    cases o' with
    | ok u => exact ⟨hending, hpushed.symm⟩
    | error e => exact .inl ⟨hending, hpushed.symm⟩
  | abandoned _ _ hpushed hending hwriter =>
    cases ho
    exact ⟨.inr (.inl ⟨rfl, hwriter, hending, hpushed.symm⟩), rfl⟩
  | pending => cases ho

/-- The queue is finished from the first end on. -/
theorem finished (h : c.Reads l r q) (hfinished : c.queue.finished = l.terminal?.isSome) :
    q.finished = (l.terminal?.or r.end?).isSome := by
  cases h with
  | past hterminal => simp [hfinished, hterminal]
  | @ends o hterminal => simp [hterminal, (items_end o).2]
  | cancelled hterminal | abandoned hterminal => simp [hterminal, Received.end?]
  | item hterminal | pending hterminal => simp [hfinished, hterminal, Received.end?]

/-- After a read that was not the end the queue holds the rest. -/
theorem owed (h : c.Reads l r q) (howed : l.terminal? = none → ∃ pending,
      l.pushed = l.received ++ pending ∧
        c.queue.buffer = pending.map .item ++ (l.ending.map SequenceEnd.entry).toList)
    (hgoing : l.terminal?.or r.end? = none) :
    ∃ pending, l.pushed = l.received ++ r.items ++ pending ∧
      q.buffer = pending.map .item ++ (l.ending.map SequenceEnd.entry).toList := by
  cases h with
  | past hterminal => simp [hterminal] at hgoing
  | @ends o hterminal => simp [(items_end o).2] at hgoing
  | cancelled | abandoned => simp [Received.end?] at hgoing
  | @item a pending _ _ hpushed => exact ⟨pending, by simp [hpushed, Received.items], rfl⟩
  | pending hterminal =>
    obtain ⟨pending, hpushed, hbuffer⟩ := howed hterminal
    exact ⟨pending, by simpa [Received.items] using hpushed, hbuffer⟩

/-- Nothing but the clean end is read after an end. -/
theorem eq_ended (h : c.Reads l r q) (hsome : l.terminal?.isSome) : r = .ended := by
  cases h with
  | past => rfl
  | cancelled hnone | item hnone | ends hnone | abandoned hnone | pending hnone =>
    simp [hnone] at hsome

/-- After a read the queue is as the notes say that have the answer, too, while the reader is there
and whatever it is used for. -/
theorem keeps (hreads : c.Reads l r q) (h : c.Keeps l) (hgone : l.readerGone = false)
    (reader : Option (ReaderUse α)) (note : ReaderNote) (hnote : note.isGone = false) :
    ({ c with queue := q, reader } : Channel α).Keeps { l.hear r with reader := note } := by
  obtain ⟨hwaiting, hwriter, hreader⟩ := hreads.frame
  have hreceived : ({ l.hear r with reader := note } : Ledger α).received = _ := l.received_hear r
  have hterminal : ({ l.hear r with reader := note } : Ledger α).terminal? = _ := l.terminal?_hear r
  refine ⟨hwaiting.trans h.outstanding, hwriter.trans h.writer,
    hreader.trans (h.reader.trans (hgone.trans hnote.symm)), h.cancelled, h.ending, fun _ => ?_,
    fun _ => ?_, h.order.hear hreads.eq_ended, ?_, fun o ho => ?_⟩
  · rw [hterminal]
    exact hreads.finished (h.finished hgone)
  · rw [hterminal, hreceived]
    exact hreads.owed (h.owed hgone)
  · rw [hreceived]
    exact hreads.received h.received
  · rw [hterminal] at ho
    have hends : l.BearsOut o ∧ r.items = [] := by
      cases hterminal : l.terminal? with
      | none => exact hreads.bearsOut hterminal (by simpa [hterminal] using ho)
      | some o' =>
        obtain rfl : o' = o := by simpa [hterminal] using ho
        have hended := hreads.eq_ended (by simp [hterminal])
        exact ⟨h.terminal _ hterminal, by rw [hended]; rfl⟩
    unfold Ledger.BearsOut
    rw [hreceived, hends.2, List.append_nil]
    exact hends.1

end Reads

/-! ## Operations -/

namespace Keeps

/-- The reader goes away, or is used up. -/
theorem dropReader (h : c.Keeps l) (reader : Option (ReaderUse α)) {note : ReaderNote}
    (hnote : note.isGone = true) :
    ({ c with queue := c.queue.dropReader, reader } : Channel α).Keeps { l with reader := note } :=
  have hnot : ({ l with reader := note } : Ledger α).readerGone ≠ false := by
    simp [Ledger.readerGone, hnote]
  ⟨h.outstanding, h.writer, hnote.symm, h.cancelled, h.ending, fun hgone => absurd hgone hnot,
    fun hgone => absurd hgone hnot, h.order, h.received, h.terminal⟩

/-- The reader is given away. -/
theorem giveReader (h : c.Keeps l) (hgone : l.readerGone = false) (reader : Option (ReaderUse α))
    {note : ReaderNote} (hnote : note.isGone = false) :
    ({ c with reader } : Channel α).Keeps { l with reader := note } :=
  ⟨h.outstanding, h.writer, h.reader.trans (hgone.trans hnote.symm), h.cancelled, h.ending,
    fun _ => h.finished hgone, fun _ => h.owed hgone, h.order, h.received, h.terminal⟩

/-- The queue is cancelled. -/
theorem cancel (h : c.Keeps l) :
    ({ c with cancelled := true } : Channel α).Keeps { l with cancelled := true } := by
  refine ⟨h.outstanding, h.writer, h.reader, rfl, h.ending, h.finished, h.owed, h.order, h.received,
    fun o ho => ?_⟩
  have hbears := h.terminal o ho
  cases o with
  | ok u => exact hbears
  | error e =>
    rcases hbears with hfail | habandoned | ⟨he, -⟩
    · exact .inl hfail
    · exact .inr (.inl habandoned)
    · exact .inr (.inr ⟨he, rfl⟩)

/-- The writer puts in an entry, unless it has gone or is busy. -/
theorem write (h : c.Keeps l) (entry : Entry α) :
    ((∀ o, (c.write entry).1 ≠ .sent o) ∧ (c.write entry).2 = c) ∨
      ∃ o, (c.write entry).1 = .sent o ∧ (c.write entry).2.Keeps (l.settle entry o) := by
  unfold Channel.write
  cases hwriter : c.queue.writerGone with
  | true => exact .inl ⟨by simp, rfl⟩
  | false =>
    cases hwaiting : c.queue.waiting with
    | some other => exact .inl ⟨by simp, by simp⟩
    | none =>
      refine .inr ?_
      have hsend : c.queue.send c.cancelled entry = c.queue.resume c.cancelled entry := by
        rw [Queue.resume, ← hwaiting]
      simp only [hsend]
      exact h.settle hwriter entry

/-- The writer tries its outstanding entry again. -/
theorem resume (h : c.Keeps l) :
    ((∀ o, c.resume.1 ≠ .sent o) ∧ c.resume.2 = c) ∨
      ∃ entry o, l.outstanding = some entry ∧ c.resume.1 = .sent o ∧
        c.resume.2.Keeps (l.settle entry o) := by
  unfold Channel.resume
  cases hwriter : c.queue.writerGone with
  | true => exact .inl ⟨by simp, rfl⟩
  | false =>
    cases hwaiting : c.queue.waiting with
    | none => exact .inl ⟨by simp, by simp⟩
    | some entry =>
      obtain ⟨o, hsent, hkeeps⟩ := h.settle hwriter entry
      exact .inr ⟨entry, o, h.outstanding ▸ hwaiting, hsent, hkeeps⟩

/-- An operation that puts in an entry is noted as such if an entry was put in. -/
theorem writeOp (h : c.Keeps l) {op : Operation α} {entry : Entry α}
    (hop : c.perform op = c.write entry) (hsent : ∀ o, l.note (op, .sent o) = l.settle entry o)
    (hnot : ∀ answer, (∀ o, answer ≠ .sent o) → l.note (op, answer) = l) :
    (c.perform op).2.Keeps (l.note (op, (c.perform op).1)) := by
  rw [hop]
  rcases h.write entry with ⟨hanswer, hsame⟩ | ⟨o, hanswer, hkeeps⟩
  · rw [hnot _ hanswer, hsame]
    exact h
  · rw [hanswer, hsent]
    exact hkeeps

/-- The outstanding entry is given up. -/
theorem withdraw (h : c.Keeps l) : c.withdraw.Keeps l.withdraw := by
  unfold Channel.withdraw Ledger.withdraw
  rw [← h.outstanding]
  cases c.queue.waiting with
  | none => exact h
  | some entry =>
    cases entry with
    | item a => simpa [endsQueue] using h.release
    | close | fail e => simpa [endsQueue, Queue.dropWriter] using h.dropWriter

end Keeps

/-- The operation leaves the reader alone. -/
def Operation.sparesReader : Operation α → Bool
  | .push _ | .close | .fail _ | .resume | .withdraw | .dropWriter | .cancel => true
  | .recv | .isFinished | .collectAll | .stream | .dropReader => false

/-- What leaves the reader alone does the same whatever the reader is used for. -/
theorem perform_sparing {op : Operation α} (hop : op.sparesReader = true) (c : Channel α)
    (reader : Option (ReaderUse α)) :
    ({ c with reader } : Channel α).perform op =
      ((c.perform op).1, { (c.perform op).2 with reader }) := by
  have hwrite : ∀ entry, ({ c with reader } : Channel α).write entry =
      ((c.write entry).1, { (c.write entry).2 with reader }) := fun entry => by
    unfold write
    split
    · rfl
    · split
      · rfl
      · rfl
  cases op with
  | push a => exact hwrite _
  | close => exact hwrite _
  | fail e => exact hwrite _
  | resume =>
    simp only [perform, Channel.resume]
    split
    · rfl
    · split
      · rfl
      · rfl
  | withdraw =>
    simp only [perform, Channel.withdraw]
    split
    · rfl
    · rfl
  | dropWriter | cancel => rfl
  | recv | isFinished | collectAll | stream | dropReader => cases hop

/-- What leaves the reader alone answers nothing, that there was nothing to do, or what became of an
entry. -/
inductive Spares (c : Channel α) : Answer α → Prop where
  | done : Spares c .done
  | idle : Spares c .idle
  | busy : Spares c .busy
  | gone : Spares c .gone
  | sent (entry : Entry α) : Spares c (.sent (c.queue.send c.cancelled entry).1)
  | resumed (entry : Entry α) : Spares c (.sent (c.queue.resume c.cancelled entry).1)

theorem spares_perform {op : Operation α} (hop : op.sparesReader = true) (c : Channel α) :
    c.Spares (c.perform op).1 := by
  have hwrite : ∀ entry, c.Spares (c.write entry).1 := fun entry => by
    unfold write
    split
    · exact .gone
    · split
      · exact .busy
      · exact .sent entry
  cases op with
  | push a => exact hwrite _
  | close => exact hwrite _
  | fail e => exact hwrite _
  | resume =>
    simp only [perform, Channel.resume]
    split
    · exact .gone
    · split
      · exact .idle
      next entry _ => exact .resumed entry
  | withdraw | dropWriter | cancel => exact .done
  | recv | isFinished | collectAll | stream | dropReader => cases hop

theorem reader_perform_of_sparing {op : Operation α} (hop : op.sparesReader = true)
    (c : Channel α) : (c.perform op).2.reader = c.reader := by
  have hsame := perform_sparing hop c c.reader
  rw [hsame]

/-- What leaves the reader alone tells it nothing. -/
theorem note_sparing {op : Operation α} (hop : op.sparesReader = true) (l : Ledger α)
    (answer : Answer α) :
    (l.note (op, answer)).heard = l.heard ∧ (l.note (op, answer)).reader = l.reader := by
  have hsettle : ∀ (entry : Entry α) (o : Sent),
      (l.settle entry o).heard = l.heard ∧ (l.settle entry o).reader = l.reader := fun entry o => by
    cases entry <;> cases o <;> exact ⟨rfl, rfl⟩
  cases op with
  | push a => cases answer <;> first | exact hsettle _ _ | exact ⟨rfl, rfl⟩
  | close => cases answer <;> first | exact hsettle _ _ | exact ⟨rfl, rfl⟩
  | fail e => cases answer <;> first | exact hsettle _ _ | exact ⟨rfl, rfl⟩
  | resume =>
    cases answer with
    | sent o =>
      simp only [Ledger.note]
      cases l.outstanding with
      | none => exact ⟨rfl, rfl⟩
      | some entry => exact hsettle _ _
    | _ => exact ⟨rfl, rfl⟩
  | withdraw =>
    simp only [Ledger.note, Ledger.withdraw]
    split <;> exact ⟨rfl, rfl⟩
  | dropWriter | cancel => exact ⟨rfl, rfl⟩
  | recv | isFinished | collectAll | stream | dropReader => cases hop

namespace Accords

/-- The queue is as the notes say that have an operation that leaves the reader alone. -/
theorem sparing (h : c.Accords l) {op : Operation α} (hop : op.sparesReader = true) :
    (c.perform op).2.Keeps (l.note (op, (c.perform op).1)) := by
  have hkeeps := h.keeps
  cases op with
  | push a =>
    refine hkeeps.writeOp rfl (fun _ => rfl) fun answer hnot => ?_
    cases answer <;> first | rfl | exact absurd rfl (hnot _)
  | close =>
    refine hkeeps.writeOp rfl (fun _ => rfl) fun answer hnot => ?_
    cases answer <;> first | rfl | exact absurd rfl (hnot _)
  | fail e =>
    refine hkeeps.writeOp rfl (fun _ => rfl) fun answer hnot => ?_
    cases answer <;> first | rfl | exact absurd rfl (hnot _)
  | resume =>
    rcases hkeeps.resume with ⟨hnot, hsame⟩ | ⟨entry, o, hentry, hsent, hresumed⟩
    · simp only [Channel.perform, hsame]
      generalize c.resume.1 = answer at hnot
      cases answer <;> first | exact hkeeps | exact absurd rfl (hnot _)
    · simpa only [Channel.perform, hsent, Ledger.note, hentry] using hresumed
  | withdraw => exact hkeeps.withdraw
  | dropWriter => exact hkeeps.dropWriter
  | cancel => exact hkeeps.cancel
  | recv | isFinished | collectAll | stream | dropReader => cases hop

/-- A read by a reader that is there is noted as what it was told. -/
theorem note_recv (hgone : l.readerGone = false) (r : Received α) :
    l.note (.recv, l.reader.tell l.received r) = l.hear r := by
  unfold Ledger.readerGone at hgone
  cases hnote : l.reader with
  | gone | spent => simp [hnote, ReaderNote.isGone] at hgone
  | entries | streaming => rfl
  | collecting before => cases r <;> rfl

/-- The reader takes the next entry: it is told what the notes leave, and the queue and the use of
its reader are as the notes say that have it, too. -/
theorem recv (h : c.Accords l) :
    c.recv.1 = l.told ∧ c.recv.2.Accords (l.note (.recv, c.recv.1)) := by
  have hreader := h.reader
  cases hgone : l.readerGone with
  | true =>
    -- Whoever asks, nothing is read.
    have hsame : c.recv = (l.told, c) ∧ l.note (.recv, l.told) = l := by
      unfold Ledger.readerGone at hgone
      cases hnote : l.reader with
      | gone | spent =>
        rw [hnote] at hreader
        simp [Channel.recv, hreader, ReaderNote.use, Ledger.told, ReaderNote.tell, hnote,
          Ledger.note]
      | entries | collecting before | streaming => simp [hnote, ReaderNote.isGone] at hgone
    rw [hsame.1, hsame.2]
    exact ⟨rfl, h⟩
  | false =>
    have hreads := h.keeps.reads (h.keeps.reader.trans hgone)
    obtain ⟨r, q, hread⟩ : ∃ r q, c.queue.recv c.cancelled = (r, q) := ⟨_, _, rfl⟩
    rw [hread] at hreads
    obtain ⟨use, huse, hspent, htake⟩ := ReaderNote.exists_use hgone h.since r
    have hrecv : c.recv = (l.told, { c with
        queue := if !(l.reader.after r).isGone then q else q.dropReader
        reader := (l.reader.after r).use (l.hear r).received }) := by
      have hrecv := recv_of_use use hspent hread
      rw [← huse, ← hreader, htake] at hrecv
      simpa only [Ledger.told, ← hreads.eq_next, Ledger.received_hear, ReaderNote.isLive_use]
        using hrecv
    rw [hrecv]
    refine ⟨rfl, ?_⟩
    rw [Ledger.told, ← hreads.eq_next, note_recv hgone]
    refine ⟨?_, rfl, fun before hbefore => ?_⟩
    · cases hafter : (l.reader.after r).isGone with
      | false => exact hreads.keeps h.keeps hgone _ _ hafter
      | true => exact (hreads.keeps h.keeps hgone c.reader .entries rfl).dropReader _ hafter
    · rw [Ledger.received_hear, List.length_append]
      exact Nat.le_add_right_of_le (h.since before (ReaderNote.after_eq_collecting hbefore))

/-- The reader is given away, if it is read entry by entry. -/
theorem give (h : c.Accords l) (use : ReaderUse α) {note : ReaderNote} (hnote : note.isGone = false)
    (huse : note.use l.received = some use)
    (hsince : ∀ before, note = .collecting before → before ≤ l.received.length) :
    (c.reader = some .entries → ({ c with reader := some use } : Channel α).Accords
      { l with reader := note }) := by
  intro hreader
  have hgone : l.readerGone = false := by
    have hlive := l.reader.isLive_use l.received
    rw [← h.reader, hreader] at hlive
    simpa [Ledger.readerGone, ReaderUse.isLive] using hlive
  exact ⟨h.keeps.giveReader hgone _ hnote, huse.symm, hsince⟩

/-- Whatever is done with the queue, it is as the notes say that have the operation and its
answer, too. -/
theorem perform (h : c.Accords l) (op : Operation α) :
    (c.perform op).2.Accords (l.note (op, (c.perform op).1)) := by
  cases hop : op.sparesReader with
  | true =>
    obtain ⟨hheard, hnote⟩ := note_sparing hop l (c.perform op).1
    have hreceived : (l.note (op, (c.perform op).1)).received = l.received := by
      rw [Ledger.received, hheard, Ledger.received]
    refine ⟨h.sparing hop, ?_, ?_⟩
    · rw [reader_perform_of_sparing hop, hnote, hreceived, h.reader]
    · rw [hnote, hreceived]
      exact h.since
  | false =>
    cases op with
    | push | close | fail | resume | withdraw | dropWriter | cancel => cases hop
    | recv => exact h.recv.2
    | dropReader => exact ⟨h.keeps.dropReader _ rfl, rfl, nofun⟩
    | isFinished =>
      simp only [Channel.perform, handle]
      split <;> exact h
    | collectAll =>
      simp only [Channel.perform, handle]
      split
      next hreader =>
        refine h.give (.collecting []) rfl ?_ ?_ hreader
        · simp [ReaderNote.use]
        · exact fun before hbefore => Nat.le_of_eq (ReaderNote.collecting.inj hbefore).symm
      next => exact h
    | stream =>
      simp only [Channel.perform, handle]
      split
      next hreader => exact h.give .streaming rfl rfl nofun hreader
      next => exact h

end Accords

/-- After any operations a queue is as the notes on them say. -/
theorem accords_after (capacity : Option Nat) (ops : List (Operation α)) :
    ((start capacity).after ops).Accords (.of ((start capacity).transcript ops)) := by
  have hall : ∀ (ops : List (Operation α)) (c : Channel α) (l : Ledger α), c.Accords l →
      (c.after ops).Accords ((c.transcript ops).foldl Ledger.note l) := by
    intro ops
    induction ops with
    | nil => exact fun c l h => h
    | cons op ops ih => exact fun c l h => ih _ _ (h.perform op)
  exact hall ops _ _ (accords_start capacity)

end Channel

end Sidecar
