import Sidecar.Proofs.Ingestion.Deposit
import Sidecar.Proofs.Submission.Payload

/-!
# A result call and its deposit

`ResultCall.Serves` is the invariant of a result call that is not over: it ties the state of the
call, its queue and its submission to the deposit its stream has asked for. Between the end of the
data and the last message the queue is sealed, and its submission still finds it open.

`ResultCall.Serves.receive` says that a request either decides the call by itself or keeps the
invariant, with the deposit grown by the request.
-/

namespace Sidecar

/-- The submission has received the front of the deposit, and its queue holds the rest. `closed`
tells whether the queue has its end, too. -/
structure ResultIntake.Follows (i : ResultIntake) (identity : Identity) (d : Deposit)
    (closed : Bool) (q : Queue Bytes) : Prop where
  owner : i.identity = identity
  key : i.key = d.key
  payload : ∃ rest, q.Carries rest closed ∧ d.payload = i.received ++ rest

namespace ResultCall

/-- The call stands where the requests behind it lead. -/
def InOrder (call : ResultCall) (d : Deposit) : Prop :=
  match call.phase with
  | .reading => call.machine.state ≠ .terminal ∧ (call.machine.state = .idle → d.payload = [])
  | .waiting _ => call.machine.state = .terminal
  | .done _ => False

/-- The call still writes the queue of a running submission until its end has landed. -/
def Writes (call : ResultCall) : Prop :=
  match call.machine.state with
  | .receivingChunks => call.writing = .held
  | .awaitingEnd => call.writing = .sealed
  | .idle | .terminal => True

/-- The submission is where the call has got to. -/
def Submits (call : ResultCall) (identity : Identity) (d : Deposit) : Prop :=
  match call.work with
  | .absent => call.machine.state = .idle
  | .running (.intake i) => call.machine.state ≠ .idle ∧ call.Writes ∧
      i.Follows identity d (call.machine.state = .terminal) call.queue
  | .running (.standIn _) => False
  | .finished (.ok ()) => call.machine.state = .terminal
  | .finished (.error _) => call.machine.state ≠ .idle ∧
      (call.writing ≠ .notHeld → call.queue.readerGone = true)
  | .broken => False

/-- The call is not over, and its stream has asked for the deposit. -/
structure Serves (call : ResultCall) (identity : Identity) (d : Deposit) : Prop where
  failed : call.machine.failed = false
  order : call.InOrder d
  work : call.Submits identity d

/-- The submission has put the result into the store. -/
def HasStored (call : ResultCall) : Prop := call.work = .finished (.ok ())

/-- What the submission has found out about the deposit so far agrees with the store. -/
def Checked (call : ResultCall) (store : Store) (d : Deposit) : Prop :=
  match call.work with
  | .running (.intake i) => store.isTooLong i.received.length = false
  | .finished (.error _) => ¬ store.Accepts d
  | .finished (.ok _) => store.Accepts d
  | .absent | .running (.standIn _) | .broken => True

/-- A call of which nothing is read serves the empty deposit. -/
theorem serves_start (identity : Identity) (inbox : Inbox ResultRequest) :
    ({ start with inbox } : ResultCall).Serves identity .empty :=
  ⟨rfl, ⟨by simp [start, Machine.start, resultIngestion], fun _ => rfl⟩, rfl⟩

/-- A call that has read the last message waits for the submission. -/
theorem InOrder.waiting_of_terminal {call : ResultCall} {d : Deposit} (h : call.InOrder d)
    (hterminal : call.machine.state = .terminal) : ∃ token, call.phase = .waiting token := by
  unfold InOrder at h
  split at h
  next => exact absurd hterminal h.1
  next token hphase => exact ⟨token, hphase⟩
  next => cases h

/-- What performing a request has to keep: the invariant, with the deposit grown by the request, the
stream, the state the order has reached and the phase that belongs to it, that nothing is stored,
and what the submission has found out. -/
structure Performs (call : ResultCall) (identity : Identity) (store : Store) (d d' : Deposit)
    (next : IngestionState) (phase : ResultPhase) (call' : ResultCall) : Prop where
  serves : call'.Serves identity d'
  inbox : call'.inbox = call.inbox
  state : call'.machine.state = next
  phase : call'.phase = phase
  unstored : ¬ call'.HasStored
  checked : call.Checked store d → call'.Checked store d'

namespace Serves

variable {call : ResultCall} {agent : Agent} {store : Store} {d : Deposit}

/-- What is still to be read does not matter to the invariant. -/
theorem setInbox {identity : Identity} (h : call.Serves identity d) (inbox : Inbox ResultRequest) :
    ({ call with inbox } : ResultCall).Serves identity d :=
  ⟨h.failed, h.order, h.work⟩

/-- A call that is not over has no outcome. -/
theorem result?_eq_none {identity : Identity} (h : call.Serves identity d) :
    call.result? = none := by
  have horder := h.order
  unfold result?
  split
  next hphase => simp [InOrder, hphase] at horder
  next => rfl

/-- A call that still reads has stored nothing. -/
theorem not_hasStored {identity : Identity} (h : call.Serves identity d)
    (hphase : call.phase = .reading) : ¬ call.HasStored := by
  intro hwork
  have horder := h.order
  have hsubmits := h.work
  simp only [InOrder, hphase] at horder
  rw [HasStored] at hwork
  simp only [Submits, hwork] at hsubmits
  exact horder.1 hsubmits

/-- A call that has got past the key and reads on either has a submission that follows it, or one
that has failed. -/
theorem submission (h : call.Serves agent.identity d) (hphase : call.phase = .reading)
    (hstate : call.machine.state ≠ .idle) :
    (∃ i, call.work = .running (.intake i) ∧ call.Writes ∧
      i.Follows agent.identity d false call.queue) ∨
    (∃ cause, call.work = .finished (.error cause) ∧
      (call.writing ≠ .notHeld → call.queue.readerGone = true)) := by
  have horder := h.order
  simp only [InOrder, hphase] at horder
  have hwork := h.work
  unfold Submits at hwork
  split at hwork
  next => exact absurd hwork hstate
  next i hi =>
    refine .inl ⟨i, hi, hwork.2.1, ?_⟩
    simpa [horder.1] using hwork.2.2
  next => cases hwork
  next => exact absurd hwork horder.1
  next cause hw => exact .inr ⟨cause, hw, hwork.2⟩
  next => cases hwork

/-- The key starts the submission. -/
theorem perform_key (h : call.Serves agent.identity d) (hphase : call.phase = .reading)
    (hstate : call.machine.state = .idle) (token key : String) :
    call.Performs agent.identity store d (d.add (.key key)) .receivingChunks .reading
      (({ call with machine := ⟨.receivingChunks, false⟩ } : ResultCall).perform agent
        (.ofStore store) token (.key key)) := by
  have horder := h.order
  simp only [InOrder, hphase] at horder
  refine ⟨⟨rfl, ?_, ?_⟩, rfl, rfl, hphase, by simp [HasStored, perform], ?_⟩
  · simp [InOrder, perform, hphase]
  · refine ⟨by simp [perform], rfl, rfl, rfl, [], Queue.Carries.unbounded, ?_⟩
    simp [Deposit.add, horder.2 hstate]
  · intro _
    show store.isTooLong 0 = false
    simp [Store.isTooLong]

/-- Data is handed on to the submission. -/
theorem perform_data (h : call.Serves agent.identity d) (hphase : call.phase = .reading)
    (hstate : call.machine.state = .receivingChunks) (hrun : agent.stopped = false)
    (token : String) (data : Bytes) :
    call.Performs agent.identity store d (d.add (.data data)) .receivingChunks .reading
      (({ call with machine := ⟨.receivingChunks, false⟩ } : ResultCall).perform agent
        (.ofStore store) token (.data data)) := by
  simp only [perform, feed, hrun]
  rcases h.submission hphase (by simp [hstate]) with
    ⟨i, hi, hwrites, hfollows⟩ | ⟨cause, hlost, hgone⟩
  · simp only [Writes, hstate] at hwrites
    obtain ⟨rest, hcarries, hpay⟩ := hfollows.payload
    obtain ⟨hsend, hcarries'⟩ := hcarries.push data
    simp only [hwrites, if_true, hsend]
    refine ⟨⟨rfl, ?_, ?_⟩, rfl, rfl, hphase, by simp [HasStored, hi], ?_⟩
    · simp [InOrder, hphase]
    · simp only [Submits, hi]
      refine ⟨by simp, rfl, hfollows.owner, hfollows.key, rest ++ data, ?_, ?_⟩
      · simpa using hcarries'
      · simp [Deposit.add, hpay]
    · intro hchecked
      simpa [Checked, hi] using hchecked
  · by_cases hheld : call.writing = .held
    · simp only [hheld, if_true, Queue.send_of_readerGone (hgone (by simp [hheld]))]
      refine ⟨⟨rfl, ?_, ?_⟩, rfl, rfl, hphase, by simp [HasStored, hlost], ?_⟩
      · simp [InOrder, hphase]
      · simp [Submits, hlost]
      · intro hchecked
        simp only [Checked, hlost] at hchecked ⊢
        exact fun hfits => hchecked hfits.of_add
    · simp only [hheld, if_false]
      refine ⟨⟨rfl, ?_, ?_⟩, rfl, rfl, hphase, by simp [HasStored, hlost], ?_⟩
      · simp [InOrder, hphase]
      · simpa [Submits, hlost] using hgone
      · intro hchecked
        simp only [Checked, hlost] at hchecked ⊢
        exact fun hfits => hchecked hfits.of_add

/-- At the end of the data the queue is sealed, and nothing is put into it. -/
theorem perform_dataComplete (h : call.Serves agent.identity d) (hphase : call.phase = .reading)
    (hstate : call.machine.state = .receivingChunks) (token : String) :
    call.Performs agent.identity store d (d.add .dataComplete) .awaitingEnd .reading
      (({ call with machine := ⟨.awaitingEnd, false⟩ } : ResultCall).perform agent
        (.ofStore store) token .dataComplete) := by
  simp only [perform, Deposit.add]
  rcases h.submission hphase (by simp [hstate]) with
    ⟨i, hi, hwrites, hfollows⟩ | ⟨cause, hlost, hgone⟩
  · simp only [Writes, hstate] at hwrites
    refine ⟨⟨rfl, ?_, ?_⟩, rfl, rfl, hphase, by simp [HasStored, hi], ?_⟩
    · simp [InOrder, hphase]
    · simp only [Submits, hi]
      refine ⟨by simp, by simp [Writes, hwrites], ?_⟩
      simpa using hfollows
    · intro hchecked
      simpa [Checked, hi] using hchecked
  · refine ⟨⟨rfl, ?_, ?_⟩, rfl, rfl, hphase, by simp [HasStored, hlost], ?_⟩
    · simp [InOrder, hphase]
    · simp only [Submits, hlost]
      refine ⟨by simp, fun hsealed => hgone ?_⟩
      intro hnot
      simp [hnot] at hsealed
    · intro hchecked
      simpa [Checked, hlost] using hchecked

/-- The last message ends the queue. -/
theorem perform_lastResult (h : call.Serves agent.identity d) (hphase : call.phase = .reading)
    (hstate : call.machine.state = .awaitingEnd) (hrun : agent.stopped = false) (token : String) :
    call.Performs agent.identity store d (d.add .lastResult) .terminal
      (.waiting token) (({ call with machine := ⟨.terminal, false⟩ } : ResultCall).perform agent
        (.ofStore store) token .lastResult) := by
  simp only [perform, close, hrun, Deposit.add]
  rcases h.submission hphase (by simp [hstate]) with
    ⟨i, hi, hwrites, hfollows⟩ | ⟨cause, hlost, hgone⟩
  · simp only [Writes, hstate] at hwrites
    obtain ⟨rest, hcarries, hpay⟩ := hfollows.payload
    obtain ⟨hsend, hcarries'⟩ := hcarries.close
    simp only [hwrites, if_true, hsend]
    refine ⟨⟨rfl, rfl, ?_⟩, rfl, rfl, rfl, by simp [HasStored, hi], ?_⟩
    · simp only [Submits, hi]
      refine ⟨by simp, by simp [Writes], hfollows.owner, hfollows.key, rest, ?_, hpay⟩
      simpa using hcarries'
    · intro hchecked
      simpa [Checked, hi] using hchecked
  · by_cases hsealed : call.writing = .sealed
    · simp only [hsealed, if_true, Queue.send_of_readerGone (hgone (by simp [hsealed]))]
      refine ⟨⟨rfl, rfl, ?_⟩, rfl, rfl, rfl, by simp [HasStored, hlost], ?_⟩
      · simp [Submits, hlost]
      · intro hchecked
        simpa [Checked, hlost] using hchecked
    · simp only [hsealed, if_false]
      refine ⟨⟨rfl, rfl, ?_⟩, rfl, rfl, rfl, by simp [HasStored, hlost], ?_⟩
      · simpa [Submits, hlost] using hgone
      · intro hchecked
        simpa [Checked, hlost] using hchecked

/-- Taking in a request: by itself it decides the call, it asks for something, or it completes the
stream, after which the call waits with the request's token. -/
theorem receive (h : call.Serves agent.identity d) (hphase : call.phase = .reading)
    (hrun : agent.stopped = false) (store : Store) (request : ResultRequest) :
    match examineIngestion agent.token call.machine.state d (.ok request) with
    | .decided result => call.receive agent (.ofStore store) request = ended result
    | .undecided next d' =>
        call.Performs agent.identity store d d' next .reading
          (call.receive agent (.ofStore store) request)
    | .complete (d', token) =>
        call.Performs agent.identity store d d' .terminal (.waiting token)
          (call.receive agent (.ofStore store) request) := by
  simp only [ResultCall.receive, examineIngestion]
  cases agent.token.refusal? request.token with
  | some refusal => rfl
  | none =>
    cases ResultStep.ofKind? request.kind with
    | none => rfl
    | some step =>
      have hfire : call.machine.next? step.event =
          resultIngestion.next? call.machine.state step.event := by
        simp [Machine.next?, h.failed]
      simp only [Machine.fire, hfire]
      cases hnext : resultIngestion.next? call.machine.state step.event with
      | none => rfl
      | some next =>
        have hmachine : call.machine.failed = false := h.failed
        simp only [hmachine]
        cases step <;> cases hstate : call.machine.state <;>
          simp only [ResultStep.event, hstate, resultIngestion, reduceCtorEq,
            Option.some.injEq] at hnext <;>
          subst hnext
        case key.idle key => exact h.perform_key hphase hstate request.token key
        case data.receivingChunks data => exact h.perform_data hphase hstate hrun request.token data
        case dataComplete.receivingChunks =>
          exact h.perform_dataComplete hphase hstate request.token
        case lastResult.awaitingEnd => exact h.perform_lastResult hphase hstate hrun request.token

end Serves

end ResultCall

end Sidecar
