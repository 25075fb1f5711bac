import Sidecar.Proofs.Creation.Turn
import Sidecar.Proofs.Ingestion.Turn

/-!
# After a stop

When the agent is stopped, a call that is not over has one thing left to do, and that is to end as
cancelled (`CreateCall.advance_stopped`, `ResultCall.advance_stopped`). Its submission may still
move before that, and then it fails: a stopped queue yields neither an entry nor an end, so that
there is no clean end for the submission to see. Neither of the two can store anything any more
(`CreateCall.Serves.moves_stopped`, `ResultCall.Serves.moves_stopped`).
-/

namespace Sidecar

/-- Reading a payload that is not finished fails after a stop. -/
theorem drain_stopped {q : Queue Bytes} (h : q.finished = false) (store : Store) (what : String)
    (received : Bytes) :
    ∃ cause q', drain store true what received q = (.failed cause, q') := by
  simp only [drain, Queue.recv_stopped h]
  exact ⟨_, _, rfl⟩

/-- A submission that follows its batch fails after a stop. -/
theorem Intake.Follows.step_stopped {i : Intake} {identity : Identity} {b : Batch} {ended : Bool}
    {qs : TaskQueues} (h : i.Follows identity b ended qs) (store : Store) :
    ∃ cause qs', i.step store true qs = (.ended (.error cause), qs') := by
  unfold Intake.step
  cases hc : i.current with
  | none =>
    simp only [Intake.takeHeader, Queue.recv_stopped h.finished]
    exact ⟨_, _, rfl⟩
  | some u =>
    obtain ⟨hn, -⟩ := h.current u hc
    obtain ⟨t, ht, -⟩ := h.getElem?_current hc
    obtain ⟨q, rest, hq, hcarries, -⟩ := h.payloads _ t ht (Nat.le_refl _)
    obtain ⟨cause, q', hdrain⟩ := drain_stopped hcarries.finished store ("task " ++ u.header.id)
      u.received
    simp only [Intake.takeChunk, hn, hq, hdrain]
    exact ⟨_, _, rfl⟩

/-- A submission that follows its deposit fails after a stop. -/
theorem ResultIntake.Follows.step_stopped {i : ResultIntake} {identity : Identity} {d : Deposit}
    {closed : Bool} {q : Queue Bytes} (h : i.Follows identity d closed q) (store : Store) :
    ∃ cause q', i.step store true q = (.ended (.error cause), q') := by
  obtain ⟨rest, hcarries, -⟩ := h.payload
  obtain ⟨cause, q', hdrain⟩ := drain_stopped hcarries.finished store ("result " ++ i.key)
    i.received
  exact ⟨cause, q', by simp only [ResultIntake.step, hdrain]⟩

namespace CreateCall

variable {call : CreateCall} {agent : Agent} {store : Store}

/-- A call that is not over ends as cancelled after a stop. -/
theorem advance_stopped (h : call.result? = none) (hstop : agent.stopped = true)
    (backend : Backend) :
    call.advance agent backend = some (agent, ended (.error .cancelled)) := by
  unfold advance
  cases hphase : call.phase with
  | reading => simp [Inbox.take, hstop]
  | offering payload => simp [hstop]
  | closing => simp [hstop]
  | waiting => simp [Background.wait, hstop]
  | done result => simp [result?, hphase] at h

namespace Serves

variable {identity : Identity} {b : Batch}

/-- After a stop a call ends as cancelled, or its submission fails. -/
theorem moves_stopped (h : call.Serves identity b) (hstop : agent.stopped = true)
    {r : Agent × Backend × CreateCall} (hmove : call.Moves agent (.ofStore store) r) :
    r = (agent, .ofStore store, ended (.error .cancelled)) ∨
      ∃ call', r = (agent, .ofStore store, call') ∧ call'.Serves identity b := by
  cases hmove with
  | call hadvance =>
    rw [advance_stopped h.result?_eq_none hstop] at hadvance
    cases hadvance
    exact .inl rfl
  | work hwork =>
    rw [hstop] at hwork
    unfold advanceWork at hwork
    have hsubmits := h.work
    unfold Submits at hsubmits
    split at hsubmits
    next hw =>
      rw [hw] at hwork
      cases hwork
    next i hi =>
      obtain ⟨cause, qs', hstep⟩ := hsubmits.2.2.2.step_stopped store
      have hwaiting := (i.step_frame store true call.queues).2.1
      simp only [hi, CreateWork.step, Backend.ofStore, hstep, Progress.map, Except.map] at hwork
      rw [hstep] at hwaiting
      cases hwork
      exact .inr ⟨_, rfl, h.setWork qs'.dropReaders (.finished (.error cause)) hwaiting
        ⟨hsubmits.1, fun _ => rfl⟩⟩
    next => cases hsubmits
    next hw =>
      rw [hw] at hwork
      cases hwork
    next hw =>
      rw [hw] at hwork
      cases hwork
    next => cases hsubmits

end Serves

end CreateCall

namespace ResultCall

variable {call : ResultCall} {agent : Agent} {store : Store}

/-- A call that is not over ends as cancelled after a stop. -/
theorem advance_stopped (h : call.result? = none) (hstop : agent.stopped = true)
    (backend : Backend) :
    call.advance agent backend = some (agent, ended (.error .cancelled)) := by
  unfold advance
  cases hphase : call.phase with
  | reading => simp [Inbox.take, hstop]
  | waiting token => simp [Background.wait, hstop]
  | done result => simp [result?, hphase] at h

namespace Serves

variable {identity : Identity} {d : Deposit}

/-- After a stop a call ends as cancelled, or its submission fails. -/
theorem moves_stopped (h : call.Serves identity d) (hstop : agent.stopped = true)
    {r : Agent × Backend × ResultCall} (hmove : call.Moves agent (.ofStore store) r) :
    r = (agent, .ofStore store, ended (.error .cancelled)) ∨
      ∃ call', r = (agent, .ofStore store, call') ∧ call'.Serves identity d := by
  cases hmove with
  | call hadvance =>
    rw [advance_stopped h.result?_eq_none hstop] at hadvance
    cases hadvance
    exact .inl rfl
  | work hwork =>
    rw [hstop] at hwork
    unfold advanceWork at hwork
    have hsubmits := h.work
    unfold Submits at hsubmits
    split at hsubmits
    next hw =>
      rw [hw] at hwork
      cases hwork
    next i hi =>
      obtain ⟨cause, q', hstep⟩ := hsubmits.2.2.step_stopped store
      simp only [hi, ResultWork.step, Backend.ofStore, hstep, Progress.map, Except.map] at hwork
      cases hwork
      exact .inr ⟨_, rfl, h.failed, h.order, hsubmits.1, fun _ => rfl⟩
    next => cases hsubmits
    next hw =>
      rw [hw] at hwork
      cases hwork
    next hw =>
      rw [hw] at hwork
      cases hwork
    next => cases hsubmits

end Serves

end ResultCall

end Sidecar
