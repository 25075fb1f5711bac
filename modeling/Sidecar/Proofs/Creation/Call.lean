import Sidecar.Proofs.Creation.Feeding

/-!
# A creation call and its batch

`CreateCall.Serves` is the invariant of a creation call that is not over: it ties the state of the
call, its queues and its submission to the batch its stream has asked for. A submission that has
failed reads no more, so that nothing is left to be said of the queues then but that nobody reads
the headers.

`CreateCall.Serves.perform` says that whatever a request asks for keeps the invariant, with the
batch grown by the request.
-/

namespace Sidecar

namespace CreateCall

/-- The call stands where the requests behind it lead. A call that offers an entry to the queue of
headers still has it outstanding. -/
def InOrder (call : CreateCall) (b : Batch) : Prop :=
  match call.phase with
  | .reading => call.machine.state ≠ .terminal ∧
      (b.current.isSome = true ↔ call.machine.state = .receivingChunks)
  | .offering _ => call.machine.state = .receivingChunks ∧ b.current.isSome = true ∧
      call.headersHeld = true ∧ call.queues.headers.waiting.isSome = true
  | .closing => call.machine.state = .terminal ∧ b.current = none ∧
      call.headersHeld = true ∧ call.queues.headers.waiting.isSome = true
  | .waiting => call.machine.state = .terminal ∧ b.current = none
  | .done _ => False

/-- Was the end of the headers announced to the queue? -/
def endsHeaders (call : CreateCall) : Bool :=
  match call.phase with
  | .closing | .waiting => true
  | .reading | .offering _ | .done _ => false

/-- The call still writes what a running submission has to read: the headers until their end has
landed, and the payload that is still coming. -/
def Writes (call : CreateCall) (b : Batch) : Prop :=
  match call.phase with
  | .reading => call.headersHeld = true ∧ call.queues.headers.writerGone = false ∧
      call.queues.headers.waiting = none ∧ call.payload = b.current.map fun _ => b.complete.length
  | .offering payload => call.queues.headers.writerGone = false ∧ payload = b.complete.length
  | .closing => call.queues.headers.writerGone = false
  | .waiting => call.queues.headers.writerGone = true ∧ call.queues.headers.waiting = none
  | .done _ => False

/-- The submission is where the call has got to. -/
def Submits (call : CreateCall) (identity : Identity) (b : Batch) : Prop :=
  match call.work with
  | .absent => call.machine.state = .idle ∧ b.complete = [] ∧ b.current = none ∧
      call.queues.payloads = [] ∧ call.payload = none
  | .running (.intake i) => call.machine.state ≠ .idle ∧ call.Writes b ∧
      (∃ slots, call.queues.headers.capacity = some slots ∧ 0 < slots) ∧
      i.Follows identity b call.endsHeaders call.queues
  | .running (.standIn _) => False
  | .finished (.ok created) => call.phase = .waiting ∧ created = b.created
  | .finished (.error _) => call.machine.state ≠ .idle ∧
      (call.headersHeld = true → call.queues.headers.readerGone = true)
  | .broken => False

/-- The call is not over, and its stream has asked for the batch. -/
structure Serves (call : CreateCall) (identity : Identity) (b : Batch) : Prop where
  ids : call.ids = b.ids
  failed : call.machine.failed = false
  order : call.InOrder b
  work : call.Submits identity b

/-- What the submission has found out about the batch so far agrees with the store. -/
def Checked (call : CreateCall) (store : Store) (b : Batch) : Prop :=
  match call.work with
  | .running (.intake i) => i.Sound store
  | .finished (.error _) => ¬ store.Admits b
  | .finished (.ok _) => store.Admits b
  | .absent | .running (.standIn _) | .broken => True

/-- The submission has put the batch into the store. -/
def HasStored (call : CreateCall) : Prop := ∃ created, call.work = .finished (.ok created)

/-- A call of which nothing is read serves the empty batch. -/
theorem serves_start (identity : Identity) (inbox : Inbox CreateRequest) :
    ({ start with inbox } : CreateCall).Serves identity .empty :=
  ⟨rfl, rfl, ⟨by simp [start, Machine.start, taskCreation],
    by simp [start, Machine.start, taskCreation, Batch.empty]⟩, rfl, rfl, rfl, rfl, rfl⟩

/-- The writer of the headers goes once their end has landed. -/
theorem Writes.ends_of_writerGone {call : CreateCall} {b : Batch} (h : call.Writes b)
    (hgone : call.queues.headers.writerGone = true) :
    call.endsHeaders = true ∧ call.queues.headers.waiting = none := by
  unfold Writes at h
  unfold endsHeaders
  split at h <;> simp_all

/-- A call that has announced the end of the headers, and waits for no slot, waits for the
submission. -/
theorem InOrder.waiting_of_endsHeaders {call : CreateCall} {b : Batch} (h : call.InOrder b)
    (hends : call.endsHeaders = true) (hwaiting : call.queues.headers.waiting = none) :
    call.phase = .waiting ∧ call.machine.state = .terminal := by
  unfold InOrder at h
  unfold endsHeaders at hends
  split at h <;> simp_all

/-! ## Feeding a payload -/

/-- What feeding a payload leaves alone: everything but the payloads' queues. -/
structure FeedFrame (call call' : CreateCall) : Prop where
  inbox : call'.inbox = call.inbox
  machine : call'.machine = call.machine
  headers : call'.queues.headers = call.queues.headers
  headersHeld : call'.headersHeld = call.headersHeld
  ids : call'.ids = call.ids
  work : call'.work = call.work
  phase : call'.phase = call.phase

theorem feedFrame_feed (call : CreateCall) (entry : Entry Bytes) :
    call.FeedFrame (call.feed false entry) := by
  unfold feed
  split
  · exact ⟨rfl, rfl, rfl, rfl, rfl, rfl, rfl⟩
  · split
    · exact ⟨rfl, rfl, rfl, rfl, rfl, rfl, rfl⟩
    next q _ =>
      split
      next hsend =>
        -- Only a stop cancels, and the call was not stopped.
        unfold Queue.send at hsend
        split at hsend
        next h => cases h
        next => split at hsend <;> (try split at hsend) <;> cases hsend
      next => exact ⟨rfl, rfl, rfl, rfl, rfl, rfl, rfl⟩
      next => exact ⟨rfl, rfl, rfl, rfl, rfl, rfl, rfl⟩

/-! ## What a request asks for -/

/-- What performing a request has to keep: the invariant, with the batch grown by the request, the
stream, the state the order has reached, that nothing is stored, and what the submission has found
out. -/
structure Performs (call : CreateCall) (identity : Identity) (store : Store) (b b' : Batch)
    (next : CreationState) (call' : CreateCall) : Prop where
  serves : call'.Serves identity b'
  inbox : call'.inbox = call.inbox
  state : call'.machine.state = next
  unstored : ¬ call'.HasStored
  checked : call.Checked store b → call'.Checked store b'

namespace Serves

variable {call : CreateCall} {agent : Agent} {store : Store} {b : Batch}

/-- A call that is not over has no outcome. -/
theorem result?_eq_none {identity : Identity} (h : call.Serves identity b) :
    call.result? = none := by
  have horder := h.order
  unfold result?
  split
  next hphase => simp [InOrder, hphase] at horder
  next => rfl

/-- A call that has got past the opening request and reads on either has a submission that follows
it, or one that has failed. -/
theorem submission (h : call.Serves agent.identity b) (hphase : call.phase = .reading)
    (hstate : call.machine.state ≠ .idle) :
    (∃ i, call.work = .running (.intake i) ∧ call.Writes b ∧
      (∃ slots, call.queues.headers.capacity = some slots ∧ 0 < slots) ∧
      i.Follows agent.identity b false call.queues) ∨
    (∃ cause, call.work = .finished (.error cause) ∧
      (call.headersHeld = true → call.queues.headers.readerGone = true)) := by
  have hwork := h.work
  unfold Submits at hwork
  split at hwork
  next => exact absurd hwork.1 hstate
  next i hi =>
    refine .inl ⟨i, hi, hwork.2.1, hwork.2.2.1, ?_⟩
    simpa [endsHeaders, hphase] using hwork.2.2.2
  next => cases hwork
  next => rw [hphase] at hwork; cases hwork.1
  next cause hw => exact .inr ⟨cause, hw, hwork.2⟩
  next => cases hwork

/-- The opening request starts the submission. -/
theorem perform_init (h : call.Serves agent.identity b) (hphase : call.phase = .reading)
    (hstate : call.machine.state = .idle) (options : Option TaskOptions) :
    call.Performs agent.identity store b (b.add (.init options)) .awaitingHeaderOrEnd
      (({ call with machine := ⟨.awaitingHeaderOrEnd, false⟩ } : CreateCall).perform agent
        (.ofStore store) (.init options)) := by
  have hwork := h.work
  unfold Submits at hwork
  split at hwork
  next =>
    obtain ⟨-, hcomplete, hcurrent, hpayloads, hpayload⟩ := hwork
    refine ⟨⟨h.ids, rfl, ?_, ?_⟩, rfl, rfl, by simp [HasStored, perform],
      fun _ => Intake.Sound.start _ _⟩
    · simp [InOrder, perform, hphase, Batch.add, hcurrent]
    · have hfollows := Intake.Follows.start (b := b.add (.init options)) agent.identity
        agent.capacity hcomplete hcurrent
      rw [← hpayloads] at hfollows
      refine ⟨by simp [perform], ?_, ⟨max agent.capacity 1, rfl, by omega⟩, ?_⟩
      · simp [Writes, perform, hphase, Queue.bounded, hpayload, Batch.add, hcurrent]
      · simp only [perform, endsHeaders, hphase]
        exact hfollows
  next => exact absurd hstate hwork.1
  next => cases hwork
  next => rw [hphase] at hwork; cases hwork.1
  next => exact absurd hstate hwork.1
  next => cases hwork

/-- Nothing is coming of a payload where the next header may come. -/
theorem current_eq_none (h : call.Serves agent.identity b) (hphase : call.phase = .reading)
    (hstate : call.machine.state ≠ .receivingChunks) : b.current = none := by
  have horder := h.order
  simp only [InOrder, hphase] at horder
  rw [← Option.not_isSome_iff_eq_none, horder.2]
  exact hstate

/-- A payload is coming where its data may come. -/
theorem current_eq_some (h : call.Serves agent.identity b) (hphase : call.phase = .reading)
    (hstate : call.machine.state = .receivingChunks) : ∃ t, b.current = some t := by
  have horder := h.order
  simp only [InOrder, hphase] at horder
  exact Option.isSome_iff_exists.1 (horder.2.2 hstate)

/-- A header that is dropped after its submission has failed leaves nothing to keep. -/
theorem serves_dropHeader {identity : Identity} (hids : call.ids = b.ids)
    (hmachine : call.machine = ⟨.receivingChunks, false⟩) (hsome : b.current.isSome = true)
    (hlost : ∃ cause, call.work = .finished (.error cause)) (payload : Nat) :
    (call.dropHeader payload).Serves identity b := by
  obtain ⟨cause, hlost⟩ := hlost
  exact ⟨hids, by simp [dropHeader, hmachine], by simp [InOrder, dropHeader, hmachine, hsome],
    by simp [Submits, dropHeader, hlost, hmachine]⟩

/-- A header is handed to the submission, waits for a slot, or is dropped with its payload because
the submission has failed. -/
theorem perform_header (h : call.Serves agent.identity b) (hphase : call.phase = .reading)
    (hstate : call.machine.state = .awaitingHeaderOrEnd) (hrun : agent.stopped = false)
    (header : TaskHeader) :
    call.Performs agent.identity store b (b.add (.header header)) .receivingChunks
      (({ call with machine := ⟨.receivingChunks, false⟩ } : CreateCall).perform agent
        (.ofStore store) (.header header)) := by
  have hcur := h.current_eq_none hphase (by simp [hstate])
  have hsome : (b.add (.header header)).current.isSome = true := rfl
  have hcomplete : (b.add (.header header)).complete = b.complete := by simp [Batch.add, hcur]
  have hids : call.ids ++ [header.id] = (b.add (.header header)).ids := by rw [Batch.ids_add, h.ids]
  simp only [perform, announce, hrun]
  rcases h.submission hphase (by simp [hstate]) with
    ⟨i, hi, hwrites, ⟨slots, hcap, hslots⟩, hfollows⟩ | ⟨cause, hlost, hgone⟩
  · simp only [Writes, hphase] at hwrites
    obtain ⟨hheld, hwriter, hwaiting, hpayload⟩ := hwrites
    have hcount : call.queues.payloads.length = b.complete.length := by
      rw [hfollows.count, Batch.tasks_of_current_none hcur]
    simp only [hheld, if_true]
    cases hroom : call.queues.headers.hasRoom with
    | true =>
      rw [Queue.send_of_hasRoom hfollows.reader hroom]
      simp only [offered]
      refine ⟨⟨hids, rfl, ?_, ?_⟩, rfl, rfl, by simp [HasStored, hi], ?_⟩
      · simp [InOrder, hsome]
      · simp only [Submits, hi]
        refine ⟨by simp, ?_, ⟨slots, hcap, hslots⟩, ?_⟩
        · simp [Writes, hwriter, hwaiting, hcount, Batch.add, hcur]
        · simp only [endsHeaders]
          exact hfollows.announce hcur header hfollows.reader hfollows.finished (by simp [hwaiting])
      · intro hchecked
        simpa [Checked, hi] using hchecked
    | false =>
      rw [Queue.send_of_full hfollows.reader hroom]
      simp only [offered]
      refine ⟨⟨hids, rfl, ?_, ?_⟩, rfl, rfl, by simp [HasStored, hi], ?_⟩
      · simp [InOrder, hsome]
      · simp only [Submits, hi]
        refine ⟨by simp, ?_, ⟨slots, hcap, hslots⟩, ?_⟩
        · simp [Writes, hwriter, hcount, hcomplete]
        · simp only [endsHeaders]
          exact hfollows.announce hcur header hfollows.reader hfollows.finished (by simp [hwaiting])
      · intro hchecked
        simpa [Checked, hi] using hchecked
  · have hdrop : ∀ queues : TaskQueues,
        call.Performs agent.identity store b (b.add (.header header)) .receivingChunks
          (dropHeader
            { call with
              machine := ⟨.receivingChunks, false⟩
              queues
              ids := call.ids ++ [header.id] } call.queues.payloads.length) := fun queues => by
      refine ⟨serves_dropHeader ?_ ?_ hsome ?_ _, rfl, rfl, by simp [HasStored, dropHeader, hlost],
        ?_⟩
      · exact hids
      · rfl
      · exact ⟨cause, hlost⟩
      · intro hchecked
        simp only [Checked, dropHeader, hlost] at hchecked ⊢
        exact fun hadm => hchecked hadm.of_add
    by_cases hheld : call.headersHeld = true
    · rw [if_pos hheld, Queue.send_of_readerGone (hgone hheld)]
      exact hdrop _
    · rw [if_neg hheld]
      exact hdrop _

/-- The payload that is coming has a queue, and the call writes it. -/
theorem payload_queue {i : Intake} (hwrites : call.Writes b) (hphase : call.phase = .reading)
    (hfollows : i.Follows agent.identity b false call.queues) {t : Announced}
    (hcur : b.current = some t) :
    call.payload = some b.complete.length ∧
      ∃ q, call.queues.payloads[b.complete.length]? = some q := by
  simp only [Writes, hphase] at hwrites
  obtain ⟨q, -, hq, -⟩ := hfollows.payloads b.complete.length t
    (by simp [Batch.tasks_of_current hcur]) hfollows.length_staged_le
  exact ⟨by simp [hwrites.2.2.2, hcur], q, hq⟩

/-- Once the submission has failed it does not matter what becomes of the payload. -/
theorem performs_feed_of_failed (h : call.Serves agent.identity b) (hphase : call.phase = .reading)
    {cause : Cause} (hlost : call.work = .finished (.error cause))
    (hgone : call.headersHeld = true → call.queues.headers.readerGone = true)
    {step : CreateStep} {next : CreationState} (hids : (b.add step).ids = b.ids)
    (hnext : next ≠ .terminal ∧ next ≠ .idle)
    (hcur : (b.add step).current.isSome = true ↔ next = .receivingChunks) (entry : Entry Bytes) :
    call.Performs agent.identity store b (b.add step) next
      (({ call with machine := ⟨next, false⟩ } : CreateCall).feed false entry) := by
  have hframe := ({ call with machine := ⟨next, false⟩ } : CreateCall).feedFrame_feed entry
  generalize ({ call with machine := ⟨next, false⟩ } : CreateCall).feed false entry = fed
    at hframe ⊢
  have hphase' : fed.phase = .reading := hframe.phase.trans hphase
  have hlost' : fed.work = .finished (.error cause) := hframe.work.trans hlost
  refine ⟨⟨?_, ?_, ?_, ?_⟩, hframe.inbox, by rw [hframe.machine], by simp [HasStored, hlost'], ?_⟩
  · rw [hframe.ids, hids, ← h.ids]
  · rw [hframe.machine]
  · simp only [InOrder, hphase', hframe.machine]
    exact ⟨hnext.1, hcur⟩
  · simp only [Submits, hlost', hframe.machine, hframe.headersHeld, hframe.headers]
    exact ⟨hnext.2, hgone⟩
  · intro hchecked
    simp only [Checked, hlost, hlost'] at hchecked ⊢
    exact fun hadm => hchecked hadm.of_add

/-- Data is handed on to the submission. -/
theorem perform_data (h : call.Serves agent.identity b) (hphase : call.phase = .reading)
    (hstate : call.machine.state = .receivingChunks) (hrun : agent.stopped = false)
    (data : Bytes) :
    call.Performs agent.identity store b (b.add (.data data)) .receivingChunks
      (({ call with machine := ⟨.receivingChunks, false⟩ } : CreateCall).perform agent
        (.ofStore store) (.data data)) := by
  obtain ⟨t, hcur⟩ := h.current_eq_some hphase hstate
  have hsome : (b.add (.data data)).current.isSome = true := by simp [Batch.add, hcur]
  have hids : (b.add (.data data)).ids = b.ids := by simp [Batch.ids_add]
  simp only [perform, hrun]
  rcases h.submission hphase (by simp [hstate]) with
    ⟨i, hi, hwrites, hslots, hfollows⟩ | ⟨cause, hlost, hgone⟩
  · obtain ⟨hpayload, q, hq⟩ := payload_queue hwrites hphase hfollows hcur
    obtain ⟨hsend, hfollows'⟩ := hfollows.push hcur hq data
    simp only [Writes, hphase] at hwrites
    simp only [feed, hpayload, hq, hsend]
    refine ⟨⟨by rw [hids, ← h.ids], rfl, ?_, ?_⟩, rfl, rfl, by simp [HasStored, hi], ?_⟩
    · simp [InOrder, hphase, hsome]
    · simp only [Submits, hi]
      refine ⟨by simp, ?_, hslots, ?_⟩
      · simp [Writes, hphase, hwrites.1, hwrites.2.1, hwrites.2.2.1, hcur, Batch.add]
      · simpa [endsHeaders, hphase] using hfollows'
    · intro hchecked
      simpa [Checked, hi] using hchecked
  · exact h.performs_feed_of_failed hphase hlost hgone hids (by simp) (by simp [hsome]) _

/-- The end of a payload is handed on to the submission. -/
theorem perform_dataComplete (h : call.Serves agent.identity b) (hphase : call.phase = .reading)
    (hstate : call.machine.state = .receivingChunks) (hrun : agent.stopped = false) :
    call.Performs agent.identity store b (b.add .dataComplete) .awaitingHeaderOrEnd
      (({ call with machine := ⟨.awaitingHeaderOrEnd, false⟩ } : CreateCall).perform agent
        (.ofStore store) .dataComplete) := by
  obtain ⟨t, hcur⟩ := h.current_eq_some hphase hstate
  have hids : (b.add .dataComplete).ids = b.ids := by simp [Batch.ids_add]
  simp only [perform, hrun]
  rcases h.submission hphase (by simp [hstate]) with
    ⟨i, hi, hwrites, hslots, hfollows⟩ | ⟨cause, hlost, hgone⟩
  · obtain ⟨hpayload, q, hq⟩ := payload_queue hwrites hphase hfollows hcur
    obtain ⟨hsend, hfollows'⟩ := hfollows.close hcur hq
    simp only [Writes, hphase] at hwrites
    simp only [feed, hpayload, hq, hsend, releasePayload]
    refine ⟨⟨by rw [hids, ← h.ids], rfl, ?_, ?_⟩, rfl, rfl, by simp [HasStored, hi], ?_⟩
    · simp [InOrder, hphase, Batch.add]
    · simp only [Submits, hi]
      refine ⟨by simp, ?_, hslots, ?_⟩
      · simp [Writes, hphase, hwrites.1, hwrites.2.1, hwrites.2.2.1, Batch.add]
      · simpa [endsHeaders, hphase] using hfollows'
    · intro hchecked
      simpa [Checked, hi] using hchecked
  · exact h.performs_feed_of_failed hphase hlost hgone hids (by simp) (by simp [Batch.add]) _

/-- After the last task the end of the headers is handed to the submission or waits for a slot. -/
theorem perform_lastTask (h : call.Serves agent.identity b) (hphase : call.phase = .reading)
    (hstate : call.machine.state = .awaitingHeaderOrEnd) (hrun : agent.stopped = false) :
    call.Performs agent.identity store b (b.add .lastTask) .terminal
      (({ call with machine := ⟨.terminal, false⟩ } : CreateCall).perform agent
        (.ofStore store) .lastTask) := by
  have hcur := h.current_eq_none hphase (by simp [hstate])
  simp only [perform, hrun, Batch.add_lastTask]
  rcases h.submission hphase (by simp [hstate]) with
    ⟨i, hi, hwrites, hslots, hfollows⟩ | ⟨cause, hlost, hgone⟩
  · simp only [Writes, hphase] at hwrites
    obtain ⟨hheld, hwriter, hwaiting, -⟩ := hwrites
    simp only [hheld, if_true]
    cases hroom : call.queues.headers.hasRoom with
    | true =>
      rw [Queue.send_of_hasRoom hfollows.reader hroom]
      simp only [closed]
      refine ⟨⟨h.ids, rfl, ?_, ?_⟩, rfl, rfl, by simp [HasStored, hi], ?_⟩
      · simp [InOrder, hcur]
      · simp only [Submits, hi]
        refine ⟨by simp, by simp [Writes, Queue.dropWriter], hslots, ?_⟩
        simp only [endsHeaders]
        exact hfollows.endHeaders hfollows.reader hfollows.finished
          (by simp [Queue.dropWriter, hwaiting])
      · intro hchecked
        simpa [Checked, hi] using hchecked
    | false =>
      rw [Queue.send_of_full hfollows.reader hroom]
      simp only [closed]
      refine ⟨⟨h.ids, rfl, ?_, ?_⟩, rfl, rfl, by simp [HasStored, hi], ?_⟩
      · simp [InOrder, hcur]
      · simp only [Submits, hi]
        refine ⟨by simp, by simp [Writes, hwriter], hslots, ?_⟩
        simp only [endsHeaders]
        exact hfollows.endHeaders hfollows.reader hfollows.finished (by simp [hwaiting])
      · intro hchecked
        simpa [Checked, hi] using hchecked
  · by_cases hheld : call.headersHeld = true
    · rw [if_pos hheld, Queue.send_of_readerGone (hgone hheld)]
      refine ⟨⟨h.ids, rfl, ?_, ?_⟩, rfl, rfl, by simp [HasStored, closed, hlost], ?_⟩
      · simp [InOrder, closed, hcur]
      · simp [Submits, closed, hlost]
      · intro hchecked
        simpa [Checked, closed, hlost] using hchecked
    · rw [if_neg hheld]
      refine ⟨⟨h.ids, rfl, ?_, ?_⟩, rfl, rfl, by simp [HasStored, hlost], ?_⟩
      · simp [InOrder, hcur]
      · simp [Submits, hlost, hheld]
      · intro hchecked
        simpa [Checked, hlost] using hchecked

/-- Whatever a request asks for in its turn keeps the invariant. -/
theorem perform (h : call.Serves agent.identity b) (hphase : call.phase = .reading)
    (hrun : agent.stopped = false) {step : CreateStep} {next : CreationState}
    (hnext : taskCreation.next? call.machine.state step.event = some next) :
    call.Performs agent.identity store b (b.add step) next
      (({ call with machine := ⟨next, false⟩ } : CreateCall).perform agent (.ofStore store)
        step) := by
  cases step <;> cases hstate : call.machine.state <;>
    simp only [CreateStep.event, hstate, taskCreation, reduceCtorEq, Option.some.injEq] at hnext <;>
    subst hnext
  case init.idle options => exact h.perform_init hphase hstate options
  case header.awaitingHeaderOrEnd header => exact h.perform_header hphase hstate hrun header
  case data.receivingChunks data => exact h.perform_data hphase hstate hrun data
  case dataComplete.receivingChunks => exact h.perform_dataComplete hphase hstate hrun
  case lastTask.awaitingHeaderOrEnd => exact h.perform_lastTask hphase hstate hrun

end Serves

end CreateCall

end Sidecar
