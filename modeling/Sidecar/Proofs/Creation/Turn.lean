import Sidecar.Proofs.Creation.Call

/-!
# The turns of a creation call

A call and its submission move independently of each other (`CreateCall.Moves`), and a schedule may
let either go first. `CreateCall.Pursues` says what a call that is not over makes of its stream,
however far it has got: the verdict on what it has read and on what has arrived. Whatever moves
keeps the verdict, until the call ends as the verdict says (`CreateCall.Pursues.turn`). What the
store holds does not matter for this, so that other calls may store what they like meanwhile.
-/

namespace Sidecar

namespace CreateCall

/-- A call or its submission takes its next step. -/
inductive Moves (agent : Agent) (backend : Backend) (call : CreateCall) :
    Agent × Backend × CreateCall → Prop where
  | call {agent' : Agent} {call' : CreateCall}
      (h : call.advance agent backend = some (agent', call')) :
      Moves agent backend call (agent', backend, call')
  | work {backend' : Backend} {call' : CreateCall}
      (h : call.advanceWork agent.stopped backend = some (backend', call')) :
      Moves agent backend call (agent, backend', call')

/-- A call that may take a step makes a move. -/
theorem moves_of_step {call : CreateCall} {agent : Agent} {backend : Backend}
    {r : Agent × Backend × CreateCall} (h : call.step agent backend = some r) :
    call.Moves agent backend r := by
  unfold step at h
  split at h
  next hadvance =>
    cases h
    exact .call hadvance
  next =>
    split at h
    next hwork =>
      cases h
      exact .work hwork
    next => cases h

/-- A call that takes no step makes no move. -/
theorem not_moves_of_step_eq_none {call : CreateCall} {agent : Agent} {backend : Backend}
    (h : call.step agent backend = none) (r : Agent × Backend × CreateCall) :
    ¬ call.Moves agent backend r := by
  intro hmove
  unfold step at h
  cases hmove with
  | call hadvance =>
    rw [hadvance] at h
    cases h
  | work hwork =>
    split at h
    · cases h
    · rw [hwork] at h
      cases h

/-- What a call that has asked for a batch comes to when the items are still to be read. -/
def prospect (call : CreateCall) (token : Token) (b : Batch)
    (items : List (Except Cause CreateRequest)) : CreateVerdict :=
  if call.machine.state = .terminal then .complete b
  else scanRequests token call.machine.state b items

/-- A call that is not over, and what it makes of its stream. -/
structure Pursues (call : CreateCall) (agent : Agent) (ended : Bool) (verdict : CreateVerdict)
    (b : Batch) : Prop where
  serves : call.Serves agent.identity b
  stream : ∃ items, call.inbox = ⟨items.map .ofItem, ended⟩ ∧
    call.prospect agent.token b items = verdict

/-- What a move comes to: the call or its submission gets on; the stream decides the call; the
submission stores the batch; or the call replies. -/
inductive Turn (agent : Agent) (store : Store) (ended : Bool) (verdict : CreateVerdict) (b : Batch)
    (call : CreateCall) : Agent × Backend × CreateCall → Prop where
  | goesOn {b' : Batch} {call' : CreateCall} (h : call'.Pursues agent ended verdict b')
      (hbefore : ¬ call.HasStored) (hafter : ¬ call'.HasStored)
      (hchecked : call.Checked store b → call'.Checked store b') :
      Turn agent store ended verdict b call (agent, .ofStore store, call')
  | breaksOff {result : CreateResult} (h : verdict.Decides "CreateTask" ended result)
      (hbefore : ¬ call.HasStored) :
      Turn agent store ended verdict b call (agent, .ofStore store, CreateCall.ended result)
  | stores {call' : CreateCall} (h : call'.Pursues agent ended verdict b)
      (hverdict : verdict = .complete b) (hbefore : ¬ call.HasStored) (hafter : call'.HasStored)
      (hchecked : call.Checked store b → store.Admits b) :
      Turn agent store ended verdict b call
        (agent, .ofStore (store.addTasks (b.stored agent.identity)), call')
  | replies (hverdict : verdict = .complete b) (hbefore : call.HasStored) :
      Turn agent store ended verdict b call
        ({ agent with created := agent.created ++ b.created }, .ofStore store,
          CreateCall.ended (.ok .successful))
  | refuses (hverdict : verdict = .complete b) (hbefore : ¬ call.HasStored)
      (hchecked : call.Checked store b → ¬ store.Admits b) :
      Turn agent store ended verdict b call
        (agent, .ofStore store, CreateCall.ended (.ok (.nonSuccessful b.ids)))

namespace Serves

variable {call : CreateCall} {agent : Agent} {store : Store} {b : Batch}

/-- What is still to be read does not matter to the invariant. -/
theorem setInbox {identity : Identity} (h : call.Serves identity b) (inbox : Inbox CreateRequest) :
    ({ call with inbox } : CreateCall).Serves identity b :=
  ⟨h.ids, h.failed, h.order, h.work⟩

/-- While the submission moves, the writer's side of the headers stays as it is, and the call stands
where it stood. -/
theorem setWork {identity : Identity} (h : call.Serves identity b) (qs : TaskQueues)
    (work : Work CreateWork (List CreatedTask))
    (hwaiting : qs.headers.waiting = call.queues.headers.waiting)
    (hwork : ({ call with queues := qs, work } : CreateCall).Submits identity b) :
    ({ call with queues := qs, work } : CreateCall).Serves identity b := by
  refine ⟨h.ids, h.failed, ?_, hwork⟩
  have horder := h.order
  unfold InOrder at horder ⊢
  split at horder <;> simp_all

/-- A call that still reads, or waits for a slot, has stored nothing. -/
theorem not_hasStored {identity : Identity} (h : call.Serves identity b)
    (hphase : call.phase ≠ .waiting) : ¬ call.HasStored := by
  rintro ⟨created, hwork⟩
  have := h.work
  simp only [Submits, hwork] at this
  exact hphase this.1

/-- Taking in a request: by itself it decides the call, or it asks for something. -/
theorem receive (h : call.Serves agent.identity b) (hphase : call.phase = .reading)
    (hrun : agent.stopped = false) (store : Store) (request : CreateRequest) :
    match examineRequest agent.token call.machine.state (.ok request) with
    | .error result => call.receive agent (.ofStore store) request = ended result
    | .ok (step, next) =>
      taskCreation.next? call.machine.state step.event = some next ∧
        call.Performs agent.identity store b (b.add step) next
          (call.receive agent (.ofStore store) request) := by
  simp only [CreateCall.receive, examineRequest]
  cases agent.token.refusal? request.token with
  | some refusal => rfl
  | none =>
    cases CreateStep.ofKind? request.kind with
    | none => rfl
    | some step =>
      have hfire : call.machine.next? step.event =
          taskCreation.next? call.machine.state step.event := by
        simp [Machine.next?, h.failed]
      simp only [Machine.fire, hfire]
      cases hnext : taskCreation.next? call.machine.state step.event with
      | none => rfl
      | some next =>
        refine ⟨hnext, ?_⟩
        have hmachine : call.machine.failed = false := h.failed
        rw [hmachine]
        exact h.perform hphase hrun hnext

end Serves

namespace Pursues

variable {call : CreateCall} {agent : Agent} {store : Store} {ended : Bool}
  {verdict : CreateVerdict} {b : Batch}

/-- A call that reads takes in the next element of its stream. -/
theorem turn_reading (h : call.Pursues agent ended verdict b) (hrun : agent.stopped = false)
    (hphase : call.phase = .reading) {agent' : Agent} {call' : CreateCall}
    (hmove : call.advance agent (.ofStore store) = some (agent', call')) :
    Turn agent store ended verdict b call (agent', .ofStore store, call') := by
  obtain ⟨items, hinbox, hverdict⟩ := h.stream
  have hunstored := h.serves.not_hasStored (by simp [hphase])
  have hstate : call.machine.state ≠ .terminal := by
    have := h.serves.order
    simp only [InOrder, hphase] at this
    exact this.1
  rw [prospect, if_neg hstate] at hverdict
  simp only [advance, hphase, Inbox.take, hinbox, hrun, Bool.false_eq_true, if_false] at hmove
  cases items with
  | nil =>
    cases ended with
    | false => cases hmove
    | true =>
      cases hmove
      subst hverdict
      exact .breaksOff (.runsOut _ _ rfl) hunstored
  | cons item rest =>
    rw [scanRequests_cons] at hverdict
    cases item with
    | error cause =>
      cases hmove
      subst hverdict
      exact .breaksOff (.decided _) hunstored
    | ok request =>
      simp only [List.map_cons, Arrival.ofItem, Bool.false_eq_true, if_false, Option.some.injEq,
        Prod.mk.injEq] at hmove
      obtain ⟨rfl, rfl⟩ := hmove
      have hserves := h.serves.setInbox ⟨rest.map .ofItem, ended⟩
      have hreceive := hserves.receive hphase hrun store request
      simp only [hphase] at hreceive
      cases hexamine : examineRequest agent.token call.machine.state (.ok request) with
      | error result =>
        rw [hexamine] at hreceive hverdict
        rw [hreceive]
        subst hverdict
        exact .breaksOff (.decided _) hunstored
      | ok found =>
        obtain ⟨step, next⟩ := found
        simp only [hexamine] at hreceive hverdict
        obtain ⟨hnext, hperforms⟩ := hreceive
        refine .goesOn ⟨hperforms.serves, rest, hperforms.inbox, ?_⟩ hunstored hperforms.unstored
          hperforms.checked
        rw [prospect, hperforms.state]
        by_cases hlast : step = .lastTask
        · subst hlast
          rw [if_pos ((next?_eq_terminal_iff hnext).2 rfl), Batch.add_lastTask]
          exact hverdict
        · rw [if_neg fun hterminal => hlast ((next?_eq_terminal_iff hnext).1 hterminal)]
          cases step with
          | lastTask => exact absurd rfl hlast
          | init | header | data | dataComplete => exact hverdict

/-- The submission of a call that waits for a slot runs or has failed. -/
theorem submission_of_held (h : call.Serves agent.identity b) (hheld : call.headersHeld = true)
    (hstate : call.machine.state ≠ .idle) (hphase : call.phase ≠ .waiting) :
    (∃ i, call.work = .running (.intake i) ∧ call.Writes b ∧
      (∃ slots, call.queues.headers.capacity = some slots ∧ 0 < slots) ∧
      i.Follows agent.identity b call.endsHeaders call.queues) ∨
    (∃ cause, call.work = .finished (.error cause) ∧ call.queues.headers.readerGone = true) := by
  have hwork := h.work
  unfold Submits at hwork
  split at hwork
  next => exact absurd hwork.1 hstate
  next i hi => exact .inl ⟨i, hi, hwork.2⟩
  next => cases hwork
  next => exact absurd hwork.1 hphase
  next cause hw => exact .inr ⟨cause, hw, hwork.2 hheld⟩
  next => cases hwork

/-- A header that waited for a slot goes in, or is dropped because the submission has failed. -/
theorem turn_offering (h : call.Pursues agent ended verdict b) (hrun : agent.stopped = false)
    {payload : Nat} (hphase : call.phase = .offering payload) {agent' : Agent} {call' : CreateCall}
    (hmove : call.advance agent (.ofStore store) = some (agent', call')) :
    Turn agent store ended verdict b call (agent', .ofStore store, call') := by
  obtain ⟨items, hinbox, hverdict⟩ := h.stream
  have hunstored := h.serves.not_hasStored (by simp [hphase])
  have horder := h.serves.order
  simp only [InOrder, hphase] at horder
  obtain ⟨hstate, hsome, hheld, hwaiting⟩ := horder
  obtain ⟨entry, hentry⟩ := Option.isSome_iff_exists.1 hwaiting
  simp only [advance, hphase, hrun, Bool.false_eq_true, if_false, hentry] at hmove
  have hmachine : call.machine = ⟨.receivingChunks, false⟩ := by
    rw [← hstate, ← h.serves.failed]
  rcases submission_of_held h.serves hheld (by simp [hstate]) (by simp [hphase]) with
    ⟨i, hi, hwrites, hslots, hfollows⟩ | ⟨cause, hlost, hgone⟩
  · simp only [Writes, hphase] at hwrites
    obtain ⟨hwriter, rfl⟩ := hwrites
    simp only [endsHeaders, hphase] at hfollows
    cases hroom : call.queues.headers.hasRoom with
    | false =>
      rw [Queue.resume_of_full hfollows.reader hroom] at hmove
      cases hmove
    | true =>
      rw [Queue.resume_of_hasRoom hfollows.reader hroom] at hmove
      simp only [offered] at hmove
      cases hmove
      refine .goesOn ⟨⟨h.serves.ids, h.serves.failed, ?_, ?_⟩, items, hinbox, hverdict⟩
        hunstored (by simp [HasStored, hi]) ?_
      · simp [InOrder, hstate, hsome]
      · simp only [Submits, hi]
        refine ⟨by simp [hstate], ?_, hslots, ?_⟩
        · obtain ⟨t, ht⟩ := Option.isSome_iff_exists.1 hsome
          simp [Writes, hheld, hwriter, ht]
        · exact hfollows.settle hfollows.reader hfollows.finished (by simp [hentry])
      · intro hchecked
        simpa [Checked, hi] using hchecked
  · rw [Queue.resume_of_readerGone hgone] at hmove
    simp only [offered] at hmove
    cases hmove
    refine .goesOn ⟨Serves.serves_dropHeader h.serves.ids hmachine hsome ⟨cause, hlost⟩ payload,
      items, hinbox, hverdict⟩ hunstored (by simp [HasStored, dropHeader, hlost])
      ?_
    intro hchecked
    simpa [Checked, dropHeader, hlost] using hchecked

/-- The end of the headers that waited for a slot goes in, or is dropped because the submission has
failed. -/
theorem turn_closing (h : call.Pursues agent ended verdict b) (hrun : agent.stopped = false)
    (hphase : call.phase = .closing) {agent' : Agent} {call' : CreateCall}
    (hmove : call.advance agent (.ofStore store) = some (agent', call')) :
    Turn agent store ended verdict b call (agent', .ofStore store, call') := by
  obtain ⟨items, hinbox, hverdict⟩ := h.stream
  have hunstored := h.serves.not_hasStored (by simp [hphase])
  have horder := h.serves.order
  simp only [InOrder, hphase] at horder
  obtain ⟨hstate, hcurrent, hheld, hwaiting⟩ := horder
  obtain ⟨entry, hentry⟩ := Option.isSome_iff_exists.1 hwaiting
  simp only [advance, hphase, hrun, Bool.false_eq_true, if_false, hentry] at hmove
  rcases submission_of_held h.serves hheld (by simp [hstate]) (by simp [hphase]) with
    ⟨i, hi, hwrites, hslots, hfollows⟩ | ⟨cause, hlost, hgone⟩
  · simp only [endsHeaders, hphase] at hfollows
    cases hroom : call.queues.headers.hasRoom with
    | false =>
      rw [Queue.resume_of_full hfollows.reader hroom] at hmove
      cases hmove
    | true =>
      rw [Queue.resume_of_hasRoom hfollows.reader hroom] at hmove
      simp only [closed] at hmove
      cases hmove
      refine .goesOn ⟨⟨h.serves.ids, h.serves.failed, ⟨hstate, hcurrent⟩, ?_⟩, items, hinbox,
        hverdict⟩ hunstored (by simp [HasStored, hi]) ?_
      · simp only [Submits, hi]
        refine ⟨by simp [hstate], ⟨rfl, rfl⟩, hslots, ?_⟩
        exact hfollows.settle hfollows.reader hfollows.finished
          (by simp [Queue.dropWriter, hentry])
      · intro hchecked
        simpa [Checked, hi] using hchecked
  · rw [Queue.resume_of_readerGone hgone] at hmove
    simp only [closed] at hmove
    cases hmove
    refine .goesOn ⟨⟨h.serves.ids, h.serves.failed, ⟨hstate, hcurrent⟩, ?_⟩, items, hinbox,
      hverdict⟩ hunstored (by simp [HasStored, hlost]) ?_
    · simp [Submits, hlost, hstate]
    · intro hchecked
      simpa [Checked, hlost] using hchecked

/-- A call that has read its whole stream replies what its submission has come to. -/
theorem turn_waiting (h : call.Pursues agent ended verdict b) (hrun : agent.stopped = false)
    (hphase : call.phase = .waiting) {agent' : Agent} {call' : CreateCall}
    (hmove : call.advance agent (.ofStore store) = some (agent', call')) :
    Turn agent store ended verdict b call (agent', .ofStore store, call') := by
  obtain ⟨items, -, hverdict⟩ := h.stream
  have hstate : call.machine.state = .terminal := by
    have := h.serves.order
    simp only [InOrder, hphase] at this
    exact this.1
  rw [prospect, if_pos hstate] at hverdict
  have hwork := h.serves.work
  simp only [advance, hphase, hrun, Background.wait, Bool.false_eq_true, if_false] at hmove
  unfold Submits at hwork
  split at hwork
  next => simp [hstate] at hwork
  next i hi =>
    simp only [hi, Work.background] at hmove
    cases hmove
  next => cases hwork
  next created hw =>
    obtain ⟨-, rfl⟩ := hwork
    simp only [hw, Work.background] at hmove
    cases hmove
    exact .replies hverdict.symm ⟨_, hw⟩
  next cause hw =>
    simp only [hw, Work.background] at hmove
    cases hmove
    rw [h.serves.ids]
    refine .refuses hverdict.symm (by simp [HasStored, hw]) ?_
    intro hchecked
    simpa [Checked, hw] using hchecked
  next => cases hwork

/-- A submission that reads the queues of the call reads on, fails, or stores the batch. -/
theorem turn_intake (h : call.Pursues agent ended verdict b) {backend' : Backend}
    {call' : CreateCall} {i : Intake} (hi : call.work = .running (.intake i))
    (hmove : call.advanceWork false (.ofStore store) = some (backend', call')) :
    Turn agent store ended verdict b call (agent, backend', call') := by
  obtain ⟨items, hinbox, hverdict⟩ := h.stream
  have hwork := h.serves.work
  simp only [Submits, hi] at hwork
  obtain ⟨hstate, hwrites, hslots, hfollows⟩ := hwork
  have hunstored : ¬ call.HasStored := by simp [HasStored, hi]
  obtain ⟨hcapacity, hwaiting, hwriter⟩ := i.step_frame store false call.queues
  have hnext := hfollows.step hwrites.ends_of_writerGone store
  simp only [advanceWork, hi, CreateWork.step, Backend.ofStore] at hmove
  generalize hstep : i.step store false call.queues = progress at *
  cases hnext with
  | starves => cases hmove
  | @reads i' qs' hfollows' =>
    cases hmove
    have hserves : ({ call with
        queues := qs', work := .running (.intake i') } : CreateCall).Serves agent.identity b := by
      refine h.serves.setWork _ _ hwaiting ⟨hstate, ?_, by rwa [hcapacity], hfollows'⟩
      unfold Writes at hwrites ⊢
      split at hwrites <;> simp_all
    refine .goesOn ⟨hserves, items, hinbox, hverdict⟩ hunstored (by simp [HasStored]) ?_
    intro hchecked
    simp only [Checked, hi] at hchecked
    exact hchecked.step hstep
  | @fails cause qs' hadm =>
    cases hmove
    have hserves : (({ call with queues := qs' } : CreateCall).workDone
        (.finished (.error cause))).Serves agent.identity b :=
      h.serves.setWork qs'.dropReaders (.finished (.error cause)) hwaiting
        ⟨hstate, fun _ => rfl⟩
    exact .goesOn ⟨hserves, items, hinbox, hverdict⟩ hunstored (by simp [HasStored, workDone])
      fun _ => hadm
  | @submits qs' hended hwait hstaged =>
    cases hmove
    obtain ⟨hphase, hterminal⟩ := h.serves.order.waiting_of_endsHeaders hended hwait
    have hserves : (({ call with queues := qs' } : CreateCall).workDone
        (.finished (.ok b.created))).Serves agent.identity b :=
      h.serves.setWork qs'.dropReaders (.finished (.ok b.created)) hwaiting ⟨hphase, rfl⟩
    refine .stores ⟨hserves, items, hinbox, hverdict⟩ ?_ hunstored ⟨_, rfl⟩ ?_
    · rw [← hverdict, prospect, if_pos hterminal]
    · intro hchecked
      simp only [Checked, hi] at hchecked
      exact hchecked.admits hstaged

/-- The submission reads on, fails, or stores the batch. -/
theorem turn_work (h : call.Pursues agent ended verdict b) {backend' : Backend}
    {call' : CreateCall}
    (hmove : call.advanceWork false (.ofStore store) = some (backend', call')) :
    Turn agent store ended verdict b call (agent, backend', call') := by
  cases hw : call.work with
  | running work =>
    cases work with
    | intake i => exact h.turn_intake hw hmove
    | standIn s =>
      have hwork := h.serves.work
      rw [Submits, hw] at hwork
      cases hwork
  | absent | finished | broken =>
    rw [advanceWork, hw] at hmove
    cases hmove

/-- Whatever moves while the agent is not stopped, it takes one of the turns. -/
theorem turn (h : call.Pursues agent ended verdict b) (hrun : agent.stopped = false)
    {r : Agent × Backend × CreateCall} (hmove : call.Moves agent (.ofStore store) r) :
    Turn agent store ended verdict b call r := by
  cases hmove with
  | call hadvance =>
    cases hphase : call.phase with
    | reading => exact h.turn_reading hrun hphase hadvance
    | offering payload => exact h.turn_offering hrun hphase hadvance
    | closing => exact h.turn_closing hrun hphase hadvance
    | waiting => exact h.turn_waiting hrun hphase hadvance
    | done result =>
      have := h.serves.order
      simp [InOrder, hphase] at this
  | work hwork =>
    rw [hrun] at hwork
    exact h.turn_work hwork

end Pursues

end CreateCall

end Sidecar
