import Sidecar.Proofs.Queue.Delivery

/-!
# What the reader of a queue is told

The three ways to read a queue agree, whatever the writer does meanwhile: a collector that waits for
the end answers with what reading entry by entry comes to (`Channel.collected_of_entries`), and a
stream is told the same until it has reported its end (`Channel.streamed_of_entries`). With the
notes on a queue (`Ledger`) this says all there is to say about its reader, whatever was done with
the two handles and in whatever order (`Channel.delivers_what_was_pushed`). The items are those that
were pushed, in their order; an end comes after all of them, is told once, and is borne out by the
notes; a cancelled queue takes nothing more in and delivers nothing more.
-/

namespace Sidecar

variable {α : Type}

namespace Queue

/-- How many reads can still bring something at once. -/
def ahead (q : Queue α) : Nat := q.buffer.length + if q.finished then 0 else 1

theorem ahead_le (q : Queue α) : q.ahead ≤ q.buffer.length + 1 := by
  unfold ahead
  split <;> omega

/-- A read that brings an item or an error brings the queue nearer to its end. -/
theorem ahead_recv {q q' : Queue α} {stopped : Bool} {r : Received α}
    (h : q.recv stopped = (r, q')) (hgoes : (Channel.Answer.received r).goesOn = true) :
    q'.ahead < q.ahead := by
  unfold recv at h
  split at h
  · cases h
    cases hgoes
  next hfinished =>
    split at h
    · cases h
      simp [ahead, hfinished]
    · split at h
      next hbuffer =>
        cases h
        simp [ahead, hfinished, hbuffer]
      next =>
        cases h
        cases hgoes
      next hbuffer =>
        cases h
        simp only [ahead, hfinished, hbuffer, List.length_cons, if_true]
        omega
      next hbuffer =>
        split at h
        · cases h
          simp [ahead, hfinished, hbuffer]
        · cases h
          cases hgoes

end Queue

namespace Channel

variable {c : Channel α} {l : Ledger α}

/-! ## Three ways to read -/

/-- What was collected, if that is answered. -/
def Answer.collected? : Answer α → Option (Except QueueError (List α))
  | .collected outcome => some outcome
  | _ => none

/-- What reading entry by entry comes to, after these items: more items and a clean end, or an
error, if there was an end. -/
def comesTo (items : List α) :
    List (Operation α × Answer α) → Option (Except QueueError (List α))
  | [] => none
  | (.recv, .received (.item a)) :: rest => comesTo (items ++ [a]) rest
  | (.recv, .received .ended) :: _ => some (.ok items)
  | (.recv, .received (.error e)) :: _ => some (.error e)
  | _ :: rest => comesTo items rest

/-- Can the operation be done beside a reader that is being used? It is a read, or it leaves the
reader alone. -/
def Operation.isBeside : Operation α → Bool
  | .recv => true
  | op => op.sparesReader

theorem Operation.sparesReader_or_eq_recv {op : Operation α} (h : op.isBeside = true) :
    op.sparesReader = true ∨ op = .recv := by
  cases op with
  | recv => exact .inr rfl
  | _ => exact .inl h

theorem comesTo_sparing {op : Operation α} (hop : op.sparesReader = true) (items : List α)
    (answer : Answer α) (rest : List (Operation α × Answer α)) :
    comesTo items ((op, answer) :: rest) = comesTo items rest := by
  cases op with
  | recv => cases hop
  | _ => rfl

/-- An operation that leaves the reader alone does not answer what was collected. -/
theorem collected?_sparing {op : Operation α} (hop : op.sparesReader = true) (c : Channel α) :
    (c.perform op).1.collected? = none := by
  have hspares := spares_perform hop c
  generalize (c.perform op).1 = answer at hspares
  cases hspares <;> rfl

/-- A reader that is read entry by entry takes the next one. -/
theorem recv_of_entries (hreader : c.reader = some .entries) {r : Received α} {q : Queue α}
    (hread : c.queue.recv c.cancelled = (r, q)) :
    c.recv = (.received r, { c with queue := q, reader := some .entries }) := by
  have hrecv := recv_of_use .entries nofun hread
  rwa [← hreader] at hrecv

/-- A collector answers with what reading entry by entry comes to, on whatever the writer does. -/
theorem collected_of_entries (hreader : c.reader = some .entries) (items : List α)
    {later : List (Operation α)} (hlater : ∀ op ∈ later, op.isBeside = true) :
    (({ c with reader := some (.collecting items) } : Channel α).transcript later).findSome?
        (fun t => t.2.collected?) = comesTo items (c.transcript later) := by
  induction later generalizing c items with
  | nil => rfl
  | cons op later ih =>
    rw [List.forall_mem_cons] at hlater
    rcases Operation.sparesReader_or_eq_recv hlater.1 with hop | rfl
    · have hrest := ih ((reader_perform_of_sparing hop c).trans hreader) items hlater.2
      rw [transcript, transcript, perform_sparing hop, comesTo_sparing hop, List.findSome?_cons,
        collected?_sparing hop]
      exact hrest
    · obtain ⟨r, q, hread⟩ : ∃ r q, c.queue.recv c.cancelled = (r, q) := ⟨_, _, rfl⟩
      have hentries := recv_of_entries hreader hread
      have hcollects := recv_of_use (.collecting items) nofun hread
      rw [transcript, transcript, perform, perform, hentries, hcollects]
      cases r with
      | item a => exact ih (c := { c with queue := q, reader := some .entries }) rfl _ hlater.2
      | pending => exact ih (c := { c with queue := q, reader := some .entries }) rfl _ hlater.2
      | ended | error e => rfl

/-- A collector that begins before the writer has finished waits for the rest. -/
example : ((start none : Channel Nat).transcript
      [.collectAll, .recv, .push 7, .recv, .recv, .push 8, .close, .recv, .recv]).map Prod.snd =
    [.done, .received .pending, .sent .landed, .received (.item 7), .received .pending,
      .sent .landed, .sent .landed, .received (.item 8), .collected (.ok [7, 8])] := rfl

/-- A stream is told what a reader is told entry by entry, on whatever the writer does, until it has
reported its end. -/
theorem streamed_of_entries (hreader : c.reader = some .entries) {later : List (Operation α)}
    (hlater : ∀ op ∈ later, op.isBeside = true) {n : Nat}
    (hn : ∀ t ∈ (c.transcript later).take n, t.2 ≠ .received .ended) :
    (({ c with reader := some .streaming } : Channel α).transcript later).take (n + 1) =
      (c.transcript later).take (n + 1) := by
  induction later generalizing c n with
  | nil => rfl
  | cons op later ih =>
    rw [List.forall_mem_cons] at hlater
    rcases Operation.sparesReader_or_eq_recv hlater.1 with hop | rfl
    · rw [transcript, transcript, perform_sparing hop, List.take_succ_cons, List.take_succ_cons]
      cases n with
      | zero => rfl
      | succ n =>
        rw [transcript, List.take_succ_cons, List.forall_mem_cons] at hn
        rw [ih ((reader_perform_of_sparing hop c).trans hreader) hlater.2 hn.2]
    · obtain ⟨r, q, hread⟩ : ∃ r q, c.queue.recv c.cancelled = (r, q) := ⟨_, _, rfl⟩
      have hentries := recv_of_entries hreader hread
      have hstreams := recv_of_use .streaming nofun hread
      rw [transcript, perform, hentries] at hn
      rw [transcript, transcript, perform, perform, hentries, hstreams, List.take_succ_cons,
        List.take_succ_cons]
      cases n with
      | zero => cases r <;> rfl
      | succ n =>
        rw [List.take_succ_cons, List.forall_mem_cons] at hn
        have hrest := ih (c := { c with queue := q, reader := some .entries }) rfl hlater.2 hn.2
        cases r with
        | ended => exact absurd rfl hn.1
        | item a | error e | pending => exact congrArg _ hrest

/-! ## Reading on -/

/-- A reader that can be given more has got what it answers, and has its end of the queue. -/
theorem take_of_goesOn {use : ReaderUse α} {r : Received α} (h : (use.take r).1.goesOn = true) :
    (Answer.received r).goesOn = true ∧ ReaderUse.isLive (use.take r).2 = true := by
  cases use <;> cases r <;> first | exact ⟨rfl, rfl⟩ | cases h

/-- A read that brings an item or an error brings the queue nearer to its end. -/
theorem ahead_recv (hgoes : c.recv.1.goesOn = true) : c.recv.2.queue.ahead < c.queue.ahead := by
  cases huse : c.reader with
  | none => simp [recv, huse, Answer.goesOn] at hgoes
  | some use =>
    by_cases hspent : use = .spent
    · simp [recv, huse, hspent, Answer.goesOn] at hgoes
    · obtain ⟨r, q, hread⟩ : ∃ r q, c.queue.recv c.cancelled = (r, q) := ⟨_, _, rfl⟩
      have hrecv := recv_of_use use hspent hread
      rw [← huse] at hrecv
      have hsame : c.recv = _ := hrecv
      rw [hsame] at hgoes ⊢
      obtain ⟨hgoes, hlive⟩ := take_of_goesOn hgoes
      rw [hlive]
      exact Queue.ahead_recv hread hgoes

/-- Reading on is reading one entry after the other, until a read has to wait or the reader has
come to its end. -/
theorem reads_eq_transcript {n : Nat} (hn : c.queue.ahead < n) :
    ∃ k, c.reads n = ((c.transcript (List.replicate k .recv)).map Prod.snd,
        c.after (List.replicate k .recv)) ∧
      (c.reads n).1.getLast?.map Answer.goesOn = some false := by
  induction n generalizing c with
  | zero => exact absurd hn (Nat.not_lt_zero _)
  | succ n ih =>
    cases hgoes : (c.perform .recv).1.goesOn with
    | false =>
      have hreads : c.reads (n + 1) = ([(c.perform .recv).1], (c.perform .recv).2) := by
        simp only [reads, hgoes, Bool.false_eq_true, if_false]
      rw [hreads]
      exact ⟨1, rfl, by simp [hgoes]⟩
    | true =>
      have hahead : (c.perform .recv).2.queue.ahead < c.queue.ahead := ahead_recv hgoes
      obtain ⟨k, hrest, hlast⟩ := ih (c := (c.perform .recv).2) (by omega)
      have hreads : c.reads (n + 1) = ((c.perform .recv).1 :: ((c.perform .recv).2.reads n).1,
          ((c.perform .recv).2.reads n).2) := by
        simp only [reads, hgoes, if_true]
      refine ⟨k + 1, ?_, ?_⟩
      · rw [hreads, hrest]
        rfl
      · rw [hreads]
        cases hanswers : ((c.perform .recv).2.reads n).1 with
        | nil => simp [hanswers] at hlast
        | cons answer answers =>
          rw [hanswers] at hlast
          rw [List.getLast?_cons_cons]
          exact hlast

/-- A reader that is given the time reads one entry after the other, until a read has to wait or the
reader has come to its end. -/
theorem readOn_eq_transcript (c : Channel α) :
    ∃ k, c.readOn = ((c.transcript (List.replicate k .recv)).map Prod.snd,
        c.after (List.replicate k .recv)) ∧
      c.readOn.1.getLast?.map Answer.goesOn = some false :=
  reads_eq_transcript (Nat.lt_succ_of_le c.queue.ahead_le)

/-! ## Cancellation -/

/-- Nothing lands in a queue that was cancelled. -/
theorem perform_ne_landed (hcancelled : c.cancelled = true) (op : Operation α) :
    (c.perform op).1 ≠ .sent .landed := by
  cases hop : op.sparesReader with
  | true =>
    have hspares := spares_perform hop c
    generalize (c.perform op).1 = answer at hspares
    cases hspares with
    | done | idle | busy | gone => simp
    | sent entry => simp [hcancelled]
    | resumed entry => simp [hcancelled, Queue.resume]
  | false =>
    cases op with
    | push | close | fail | resume | withdraw | dropWriter | cancel => cases hop
    | dropReader => simp [perform]
    | recv =>
      simp only [perform, recv]
      split
      · simp
      · simp
      next use _ _ =>
        cases use <;> cases (c.queue.recv c.cancelled).1 <;> simp [ReaderUse.take]
    | isFinished | collectAll | stream =>
      simp only [perform, handle]
      split <;> simp

end Channel

namespace Ledger

variable {l : Ledger α}

/-- A cancelled queue yields nothing but that it was cancelled, and after an end nothing at all. -/
theorem next_of_cancelled (h : l.cancelled = true) :
    l.next = if l.terminal?.isSome then .ended else .error .cancelled := by
  unfold next
  cases l.terminal? <;> simp [h]

/-- A reader that was told no end is told that the queue was cancelled exactly if it was, or if the
writer itself has landed this error and all items were received. -/
theorem next_eq_cancelled_iff (hterminal : l.terminal? = none) (hpre : l.received <+: l.pushed) :
    l.next = .error .cancelled ↔
      l.cancelled = true ∨ (l.ending = some (.error .cancelled) ∧ l.received = l.pushed) := by
  obtain ⟨pending, hpushed⟩ := hpre
  unfold next
  cases hcancelled : l.cancelled with
  | true => simp [hterminal]
  | false =>
    cases pending with
    | cons a pending => simp [hterminal, ← hpushed]
    | nil =>
      rw [List.append_nil] at hpushed
      cases hending : l.ending with
      | none => cases l.writerGone <;> simp [hterminal, ← hpushed]
      | some o => rcases o with e | u <;> simp [hterminal, ← hpushed, SequenceEnd.answer]

end Ledger

namespace Channel

/-- Whatever is done with the two handles of a queue, with or without a limit on its slots, and in
whatever order, the notes on it say what its reader is told, be it read entry by entry, given away
to collect the rest, or read as a stream.

The items the reader has received begin what was pushed, and after them it hears of one end and then
of nothing more. The end is borne out: a clean one was landed by the writer and comes after all
items; an error was landed by the writer in the same way, or the writer has gone away without an
end and all items were received, or the queue was cancelled. The next answer is the one the notes
leave. Before an end it is that the queue was cancelled exactly if it was, unless the writer has
landed that very error. A cancelled queue takes nothing in and delivers neither an item nor an end
of its own.

The three ways to read agree, while the writer and the reader go on in whatever order. A collector
answers when reading entry by entry comes to an end, with its items if that is a clean one and else
with its error, and not before. A stream is told the same as a reader entry by entry until it has
reported its end. -/
theorem delivers_what_was_pushed (capacity : Option Nat) (ops : List (Operation α)) :
    let c : Channel α := (start capacity).after ops
    let l := Ledger.of ((start capacity).transcript ops)
    (l.received <+: l.pushed ∧ l.InOrder ∧ ∀ o, l.terminal? = some o → l.BearsOut o) ∧
    (c.perform .recv).1 = l.told ∧
    (c.perform .isFinished).1 =
      (match l.reader with
        | .entries => .flag l.terminal?.isSome
        | _ => .gone) ∧
    (l.terminal? = none → (l.next = .error .cancelled ↔
      l.cancelled = true ∨ (l.ending = some (.error .cancelled) ∧ l.received = l.pushed))) ∧
    (l.cancelled = true → (∀ op, (c.perform op).1 ≠ .sent .landed) ∧
      l.next = if l.terminal?.isSome then .ended else .error .cancelled) ∧
    (l.reader = .entries → ∀ later : List (Operation α), (∀ op ∈ later, op.isBeside = true) →
      ((c.perform .collectAll).2.transcript later).findSome? (fun t => t.2.collected?) =
        comesTo [] (c.transcript later) ∧
      ∀ n, (∀ t ∈ (c.transcript later).take n, t.2 ≠ .received .ended) →
        ((c.perform .stream).2.transcript later).take (n + 1) =
          (c.transcript later).take (n + 1)) := by
  intro c l
  have haccords : c.Accords l := accords_after capacity ops
  have hkeeps := haccords.keeps
  have hentries : l.reader = .entries → c.reader = some .entries := fun hnote => by
    rw [haccords.reader, hnote]
    rfl
  refine ⟨⟨hkeeps.received, hkeeps.order, hkeeps.terminal⟩, haccords.recv.1, ?_,
    fun hterminal => Ledger.next_eq_cancelled_iff hterminal hkeeps.received,
    fun hcancelled => ⟨perform_ne_landed (hkeeps.cancelled.trans hcancelled),
      Ledger.next_of_cancelled hcancelled⟩, fun hnote later hlater => ?_⟩
  · have hreader := haccords.reader
    simp only [perform, handle]
    cases hnote : l.reader with
    | entries =>
      have hgone : l.readerGone = false := by rw [Ledger.readerGone, hnote]; rfl
      rw [hentries hnote, hkeeps.finished hgone]
    | collecting before | streaming | spent | gone =>
      rw [hnote] at hreader
      rw [hreader]
      rfl
  · have hreader := hentries hnote
    have hcollect : (c.perform .collectAll).2 = { c with reader := some (.collecting []) } := by
      simp only [perform, handle, hreader]
    have hstream : (c.perform .stream).2 = { c with reader := some .streaming } := by
      simp only [perform, handle, hreader]
    rw [hcollect, hstream]
    exact ⟨collected_of_entries hreader [] hlater, fun n => streamed_of_entries hreader hlater⟩

end Channel

end Sidecar
