import Sidecar.Agent.Result
import Sidecar.Proofs.Submission.Effort

/-!
# How long a result call can keep moving

Every step of a result call, and every step of its submission, uses up some of what there is to be
done (`ResultCall.effort`), in front of any backend and whether or not the agent is stopped. What
there is to be done is never more than `ResultCall.budget`.
-/

namespace Sidecar

/-- What is left to do of a call in a phase, beyond what its stream and its queue hold. A key that
may still come brings a submission with it. -/
def ResultPhase.effort (state : IngestionState) : ResultPhase → Nat
  | reading => if state = .idle then 4 else 2
  | waiting _ => 1
  | done _ => 0

namespace ResultCall

/-- What the stream, the queue and the submission of a call have left to do. -/
def load (call : ResultCall) : Nat :=
  2 * call.inbox.arrivals.length + call.queue.buffer.length + call.work.effort ResultWork.effort

/-- What is left to do of a call and its submission. -/
def effort (call : ResultCall) : Nat := call.load + call.phase.effort call.machine.state

@[simp] theorem effort_ended (result : ResultResult) : (ended result).effort = 0 := rfl

variable {call : ResultCall} {agent : Agent} {backend : Backend}

/-! ## The call -/

/-- Data makes at most one entry more. -/
theorem effort_feed_le (call : ResultCall) (stopped : Bool) (data : Bytes) :
    (call.feed stopped data).effort ≤ call.effort + 1 := by
  unfold feed
  split
  · have hle := call.queue.length_buffer_send_le stopped (.item data)
    cases hsend : call.queue.send stopped (.item data) with
    | mk sent q =>
      rw [hsend] at hle
      simp only at hle
      split
      · simp
      · simp_all only [effort, load, Prod.mk.injEq]
        omega
      · simp_all only [effort, load, ResultPhase.effort, Prod.mk.injEq, Queue.dropWriter]
        omega
  · omega

/-- The end of the queue makes at most one entry more, and then the call only waits. -/
theorem effort_close_le (call : ResultCall) (stopped : Bool) (token : String) :
    (call.close stopped token).effort ≤ call.load + 2 := by
  unfold close
  split
  · have hle := call.queue.length_buffer_send_le stopped .close
    cases hsend : call.queue.send stopped .close with
    | mk sent q =>
      rw [hsend] at hle
      simp only at hle
      split
      · simp
      · simp_all only [effort, load, ResultPhase.effort, Prod.mk.injEq, Queue.dropWriter]
        omega
  · simp only [effort, load, ResultPhase.effort]
    omega

/-- Taking in a request takes fewer steps than the request counts for. -/
theorem effort_receive_lt (call : ResultCall) (hphase : call.phase = .reading) (agent : Agent)
    (backend : Backend) (request : ResultRequest) :
    (call.receive agent backend request).effort < call.effort + 2 := by
  unfold receive
  split
  · simp
  split
  · simp
  next step _ =>
    cases hfire : call.machine.fire step.event with
    | mk outcome machine =>
      cases outcome with
      | error refusal => simp
      | ok next =>
        -- A key finds the order at its start and leaves it; nothing leads back there.
        have hstate : machine.state ≠ .idle ∧
            (step.event = .initKey → call.machine.state = .idle) := by
          unfold Machine.fire Machine.next? at hfire
          split at hfire
          next hnext =>
            cases hfire
            split at hnext
            · cases hnext
            · cases hs : call.machine.state <;> cases he : step.event <;>
                simp [resultIngestion, hs, he] at hnext <;> simp [← hnext]
          next => cases hfire
        have hmachine : ({ call with machine } : ResultCall).effort ≤ call.effort := by
          simp only [effort, load, ResultPhase.effort, hphase, hstate.1, if_false]
          split <;> omega
        have hload : ({ call with machine } : ResultCall).load = call.load := rfl
        cases step with
        | key key =>
          have hidle := hstate.2 rfl
          have hwork : (backend.result agent.identity key).effort ≤ 3 := by
            unfold Backend.result
            split
            next s _ =>
              have : s.dropsQueue.toNat ≤ 1 := Bool.toNat_le _
              simp only [ResultWork.effort, StandIn.effort]
              omega
            next => simp [ResultWork.effort]
          simp only [perform, effort, load, ResultPhase.effort, hphase, hstate.1, hidle, if_false,
            if_true,
            Queue.unbounded, List.length_nil, Work.effort]
          omega
        | data data =>
          have := ({ call with machine } : ResultCall).effort_feed_le agent.stopped data
          simp only [perform]
          omega
        | dataComplete =>
          refine Nat.lt_of_le_of_lt hmachine ?_
          omega
        | lastResult =>
          have := ({ call with machine } : ResultCall).effort_close_le agent.stopped request.token
          have heffort : call.load + 2 ≤ call.effort := by
            simp only [effort, ResultPhase.effort, hphase]
            split <;> omega
          simp only [perform]
          omega

/-- A step of the call leaves less to do. -/
theorem effort_lt_of_advance {agent' : Agent} {call' : ResultCall}
    (h : call.advance agent backend = some (agent', call')) : call'.effort < call.effort := by
  unfold advance at h
  split at h
  next => cases h
  next hphase =>
    have hpos : 0 < call.effort := by
      simp only [effort, ResultPhase.effort, hphase]
      split <;> omega
    split at h
    next => cases h
    next =>
      cases h
      exact hpos
    next request inbox stops htake =>
      cases h
      obtain ⟨arrival, hinbox⟩ := Inbox.arrivals_of_take_message htake
      have heffort : call.effort = ({ call with inbox } : ResultCall).effort + 2 := by
        simp only [effort, load, hinbox, List.length_cons]
        omega
      rw [heffort]
      exact effort_receive_lt { call with inbox } hphase _ backend request
  next token hphase =>
    have hpos : 0 < call.effort := by
      simp only [effort, ResultPhase.effort, hphase]
      omega
    split at h
    next =>
      cases h
      exact hpos
    next => cases h
    next outcome _ => cases outcome <;> cases h <;> exact hpos

/-! ## The submission -/

/-- A step of the submission leaves less to do. -/
theorem effort_lt_of_advanceWork {stopped : Bool} {backend' : Backend} {call' : ResultCall}
    (h : call.advanceWork stopped backend = some (backend', call')) :
    call'.effort < call.effort := by
  unfold advanceWork at h
  split at h
  next work hwork =>
    have hpos : 0 < work.effort := by
      cases work <;> simp only [ResultWork.effort, StandIn.effort] <;> omega
    cases hstep : work.step backend.store stopped call.queue with
    | mk progress q =>
      simp only [hstep] at h
      cases progress with
      | waiting => cases h
      | going work' =>
        cases h
        have := ResultWork.effort_lt hstep
        simp only [effort, load, hwork, Work.effort]
        omega
      | broken =>
        cases h
        simp only [effort, load, workDone, hwork, Work.effort, Queue.dropReader,
          List.length_nil]
        omega
      | ended outcome =>
        cases outcome <;> cases h <;>
          simp only [effort, load, workDone, hwork, Work.effort, Queue.dropReader,
            List.length_nil] <;> omega
  next => cases h
  next => cases h
  next => cases h

/-- A step leaves less to do. -/
theorem effort_lt_of_step {agent' : Agent} {backend' : Backend} {call' : ResultCall}
    (h : call.step agent backend = some (agent', backend', call')) :
    call'.effort < call.effort := by
  unfold step at h
  split at h
  next hadvance =>
    cases h
    exact effort_lt_of_advance hadvance
  next =>
    split at h
    next hwork =>
      cases h
      exact effort_lt_of_advanceWork hwork
    next => cases h

/-- There is never more to do than what is budgeted for. -/
theorem effort_le_budget (call : ResultCall) : call.effort ≤ call.budget := by
  have hphase : call.phase.effort call.machine.state ≤ 4 := by
    unfold ResultPhase.effort
    split
    · split <;> omega
    · omega
    · omega
  have hwork : call.work.effort ResultWork.effort ≤ 3 := by
    cases call.work with
    | running work =>
      cases work with
      | intake i => simp [Work.effort, ResultWork.effort]
      | standIn s =>
        have : s.dropsQueue.toNat ≤ 1 := Bool.toNat_le _
        simp only [Work.effort, ResultWork.effort, StandIn.effort]
        omega
    | absent | finished | broken => simp [Work.effort]
  simp only [effort, load, budget]
  omega

end ResultCall

end Sidecar
