import Sidecar.Agent.Create
import Sidecar.Proofs.Submission.Effort

/-!
# How long a creation call can keep moving

Every step of a creation call, and every step of its submission, uses up some of what there is to
be done (`CreateCall.effort`): an element of the stream, an entry of a queue, or a step towards the
end of the call or of the submission. This holds in front of any backend, and whether or not the
agent is stopped. What there is to be done is never more than `CreateCall.budget`.
-/

namespace Sidecar

/-- What is left to do of a call in a phase, beyond what its stream and its queues hold. -/
def CreatePhase.effort : CreatePhase → Nat
  | reading => 2
  | offering _ => 5
  | closing => 4
  | waiting => 1
  | done _ => 0

namespace CreateCall

/-- What the stream, the queues and the submission of a call have left to do. -/
def load (call : CreateCall) : Nat :=
  4 * call.inbox.arrivals.length + 2 * call.queues.entries + call.work.effort CreateWork.effort

/-- What is left to do of a call and its submission. -/
def effort (call : CreateCall) : Nat := call.load + call.phase.effort

@[simp] theorem effort_ended (result : CreateResult) : (ended result).effort = 0 := rfl

variable {call : CreateCall} {agent : Agent} {backend : Backend}

/-! ## The call -/

theorem effort_dropHeader_le (call : CreateCall) (payload : Nat) :
    (call.dropHeader payload).effort ≤ call.load + 2 := by
  have := bufferedIn_modify_dropReader_le call.queues.payloads payload
  simp only [effort, load, dropHeader, TaskQueues.entries_eq, Queue.dropWriter, CreatePhase.effort]
  omega

/-- An offered header that lands makes one entry more; one that does not land only waits. -/
theorem effort_offered_le (call : CreateCall) (payload : Nat) {q : Queue (TaskHeader × Nat)}
    (stopped : Bool) (entry : Entry (TaskHeader × Nat))
    (hq : q.buffer = call.queues.headers.buffer) :
    (call.offered payload (q.send stopped entry)).effort ≤ call.load + 5 ∧
      ((q.send stopped entry).1 ≠ .suspended →
        (call.offered payload (q.send stopped entry)).effort ≤ call.load + 4) := by
  have hle := q.length_buffer_send_le stopped entry
  cases hsend : q.send stopped entry with
  | mk sent headers =>
    rw [hsend, hq] at hle
    simp only at hle
    cases sent with
    | landed =>
      simp only [offered, effort, load, TaskQueues.entries_eq, CreatePhase.effort]
      omega
    | suspended =>
      have hbuf := Queue.buffer_of_send_ne_landed hsend (by simp)
      simp [offered, effort, load, TaskQueues.entries_eq, CreatePhase.effort, hbuf, hq]
    | refused e =>
      have hbuf := Queue.buffer_of_send_ne_landed hsend (by simp)
      cases e with
      | cancelled =>
        simp only [offered, effort_ended]
        omega
      | failed | violation | abandoned | readerGone =>
        simp only [offered]
        refine ⟨Nat.le_trans (effort_dropHeader_le _ payload) ?_,
          fun _ => Nat.le_trans (effort_dropHeader_le _ payload) ?_⟩ <;>
          simp [load, TaskQueues.entries_eq, hbuf, hq]

/-- An end of the headers that lands makes one entry more; one that does not land only waits. -/
theorem effort_closed_le (call : CreateCall) {q : Queue (TaskHeader × Nat)} (stopped : Bool)
    (entry : Entry (TaskHeader × Nat)) (hq : q.buffer = call.queues.headers.buffer) :
    (call.closed (q.send stopped entry)).effort ≤ call.load + 4 ∧
      ((q.send stopped entry).1 ≠ .suspended →
        (call.closed (q.send stopped entry)).effort ≤ call.load + 3) := by
  have hle := q.length_buffer_send_le stopped entry
  cases hsend : q.send stopped entry with
  | mk sent headers =>
    rw [hsend, hq] at hle
    simp only at hle
    have hbuf := Queue.buffer_of_send_ne_landed hsend
    cases sent with
    | landed =>
      simp only [closed, effort, load, TaskQueues.entries_eq, Queue.dropWriter, CreatePhase.effort]
      omega
    | suspended =>
      simp [closed, effort, load, TaskQueues.entries_eq, CreatePhase.effort, hbuf, hq]
    | refused e =>
      cases e with
      | cancelled =>
        simp only [closed, effort_ended]
        omega
      | failed | violation | abandoned | readerGone =>
        simp [closed, effort, load, TaskQueues.entries_eq, Queue.dropWriter, CreatePhase.effort,
          hbuf, hq]

/-- An entry of a payload makes at most one entry more. -/
theorem effort_feed_le (call : CreateCall) (stopped : Bool) (entry : Entry Bytes) :
    (call.feed stopped entry).effort ≤ call.effort + 2 := by
  unfold feed
  split
  · exact Nat.le_add_right _ _
  next payload hpayload =>
    split
    · exact Nat.le_add_right _ _
    next q hq =>
      have hle := q.length_buffer_send_le stopped entry
      cases hsend : q.send stopped entry with
      | mk sent q' =>
        rw [hsend] at hle
        simp only at hle
        have hset := bufferedIn_set hq q'
        have hdrop := bufferedIn_set hq q'.dropWriter
        have hbuf : q'.dropWriter.buffer = q'.buffer := rfl
        rw [hbuf] at hdrop
        split
        · simp only [effort_ended]
          omega
        · simp_all only [effort, load, TaskQueues.entries_eq, Prod.mk.injEq]
          omega
        · simp_all only [effort, load, releasePayload, TaskQueues.entries_eq, Prod.mk.injEq]
          omega

/-- What a request asks for is done in fewer steps than the request counts for. -/
theorem effort_perform_lt (call : CreateCall) (hphase : call.phase = .reading) (agent : Agent)
    (backend : Backend) (step : CreateStep) :
    (call.perform agent backend step).effort < call.effort + 4 := by
  have heffort : call.effort = call.load + 2 := by rw [effort, hphase, CreatePhase.effort]
  cases step with
  | init options =>
    have hwork : (backend.create agent.identity options).effort ≤ 3 := by
      unfold Backend.create
      split
      next s _ =>
        simp only [CreateWork.effort, StandIn.effort]
        have : s.dropsQueue.toNat ≤ 1 := Bool.toNat_le _
        omega
      next => simp [CreateWork.effort, Intake.effort, Intake.start]
    simp only [perform, effort, load, TaskQueues.entries_eq, Queue.bounded, List.length_nil,
      Work.effort]
    omega
  | header header =>
    simp only [perform, announce]
    split
    next =>
      refine Nat.lt_of_le_of_lt (effort_offered_le _ _ _ _ rfl).1 ?_
      simp only [load, TaskQueues.entries_eq, bufferedIn_append, Queue.unbounded,
        List.length_nil] at heffort ⊢
      omega
    next =>
      refine Nat.lt_of_le_of_lt (effort_dropHeader_le _ _) ?_
      simp only [load, TaskQueues.entries_eq, bufferedIn_append, Queue.unbounded,
        List.length_nil] at heffort ⊢
      omega
  | data data =>
    have := call.effort_feed_le agent.stopped (.item data)
    simp only [perform]
    omega
  | dataComplete =>
    have := call.effort_feed_le agent.stopped .close
    simp only [perform]
    omega
  | lastTask =>
    simp only [perform]
    split
    next =>
      have := (call.effort_closed_le agent.stopped .close rfl).1
      omega
    next =>
      simp only [effort, load, CreatePhase.effort] at heffort ⊢
      omega

/-- Taking in a request takes fewer steps than the request counts for. -/
theorem effort_receive_lt (call : CreateCall) (hphase : call.phase = .reading) (agent : Agent)
    (backend : Backend) (request : CreateRequest) :
    (call.receive agent backend request).effort < call.effort + 4 := by
  unfold receive
  split
  · simp
  · split
    · simp
    · split
      · simp
      next machine _ =>
        exact effort_perform_lt { call with machine } hphase agent backend _

/-- A step of the call leaves less to do. -/
theorem effort_lt_of_advance {agent' : Agent} {call' : CreateCall}
    (h : call.advance agent backend = some (agent', call')) : call'.effort < call.effort := by
  unfold advance at h
  split at h
  next => cases h
  next hphase =>
    split at h
    next => cases h
    next =>
      cases h
      rw [effort_ended, effort, hphase, CreatePhase.effort]
      omega
    next request inbox stops htake =>
      cases h
      obtain ⟨arrival, hinbox⟩ := Inbox.arrivals_of_take_message htake
      have heffort : call.effort = ({ call with inbox } : CreateCall).effort + 4 := by
        simp only [effort, load, hinbox, List.length_cons]
        omega
      rw [heffort]
      exact effort_receive_lt { call with inbox } hphase _ backend request
  next payload hphase =>
    have heffort : call.effort = call.load + 5 := by rw [effort, hphase, CreatePhase.effort]
    split at h
    next =>
      cases h
      simp [heffort]
    next =>
      split at h
      next => cases h
      next entry _ =>
        have hle := (call.effort_offered_le payload agent.stopped entry
          (q := { call.queues.headers with waiting := none }) rfl).2
        split at h
        next => cases h
        next hne =>
          cases h
          have hsent : (call.queues.headers.resume agent.stopped entry).1 ≠ .suspended :=
            fun hs => hne _ (Prod.ext hs rfl)
          exact Nat.lt_of_le_of_lt (hle hsent) (by omega)
  next hphase =>
    have heffort : call.effort = call.load + 4 := by rw [effort, hphase, CreatePhase.effort]
    split at h
    next =>
      cases h
      simp [heffort]
    next =>
      split at h
      next => cases h
      next entry _ =>
        have hle := (call.effort_closed_le agent.stopped entry
          (q := { call.queues.headers with waiting := none }) rfl).2
        split at h
        next => cases h
        next hne =>
          cases h
          have hsent : (call.queues.headers.resume agent.stopped entry).1 ≠ .suspended :=
            fun hs => hne _ (Prod.ext hs rfl)
          exact Nat.lt_of_le_of_lt (hle hsent) (by omega)
  next hphase =>
    have heffort : call.effort = call.load + 1 := by rw [effort, hphase, CreatePhase.effort]
    split at h
    next =>
      cases h
      simp [heffort]
    next => cases h
    next outcome _ =>
      cases outcome <;> cases h <;> simp [heffort]

/-! ## The submission -/

/-- A step of the submission leaves less to do. -/
theorem effort_lt_of_advanceWork {stopped : Bool} {backend' : Backend} {call' : CreateCall}
    (h : call.advanceWork stopped backend = some (backend', call')) :
    call'.effort < call.effort := by
  unfold advanceWork at h
  split at h
  next work hwork =>
    have hpos : 0 < work.effort := by
      cases work <;> simp only [CreateWork.effort, Intake.effort, StandIn.effort] <;> omega
    cases hstep : work.step backend.store stopped call.queues with
    | mk progress qs =>
      simp only [hstep] at h
      cases progress with
      | waiting => cases h
      | going work' =>
        cases h
        have := CreateWork.effort_lt hstep
        simp only [effort, load, hwork, Work.effort]
        omega
      | broken =>
        cases h
        simp only [effort, load, workDone, hwork, Work.effort, TaskQueues.entries_dropReaders]
        omega
      | ended outcome =>
        cases outcome <;> cases h <;>
          simp only [effort, load, workDone, hwork, Work.effort,
            TaskQueues.entries_dropReaders] <;> omega
  next => cases h
  next => cases h
  next => cases h

/-- A step leaves less to do. -/
theorem effort_lt_of_step {agent' : Agent} {backend' : Backend} {call' : CreateCall}
    (h : call.step agent backend = some (agent', backend', call')) :
    call'.effort < call.effort := by
  unfold step at h
  split at h
  next hadvance =>
    cases h
    exact effort_lt_of_advance hadvance
  next =>
    split at h
    next hwork =>
      cases h
      exact effort_lt_of_advanceWork hwork
    next => cases h

/-- There is never more to do than what is budgeted for. -/
theorem effort_le_budget (call : CreateCall) : call.effort ≤ call.budget := by
  have hphase : call.phase.effort ≤ 5 := by
    cases call.phase <;> simp [CreatePhase.effort]
  have hwork : call.work.effort CreateWork.effort ≤ 3 := by
    cases call.work with
    | running work =>
      cases work with
      | intake i =>
        simp only [Work.effort, CreateWork.effort, Intake.effort]
        cases i.current <;> simp
      | standIn s =>
        have : s.dropsQueue.toNat ≤ 1 := Bool.toNat_le _
        simp only [Work.effort, CreateWork.effort, StandIn.effort]
        omega
    | absent | finished | broken => simp [Work.effort]
  simp only [effort, load, budget]
  omega

end CreateCall

end Sidecar
