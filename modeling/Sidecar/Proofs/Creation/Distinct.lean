import Sidecar.Proofs.Creation.Intake
import Sidecar.Proofs.Creation.Turn

/-!
# The tasks of a batch differ

Other calls may store what they like while a submission reads, so that what it has found free need
not be free when its batch is stored. What it has checked within its own batch stays true: no two
of the tasks it reads have one id. `CreateCall.IdsDiffer` says so of the submission of a call,
whatever the store holds, and every move keeps it (`CreateCall.IdsDiffer.moves`).
-/

namespace Sidecar

/-- What a submission has stored has the ids it has read. -/
theorem Intake.nodup_created_of_step {i : Intake} {store : Store} {stopped : Bool}
    {qs qs' : TaskQueues} {submitted : Submitted}
    (hs : i.step store stopped qs = (.ended (.ok submitted), qs')) (h : i.idsRead.Nodup) :
    (submitted.created.map (·.taskId)).Nodup := by
  have heq : submitted = i.submitted := by
    unfold step at hs
    split at hs
    next =>
      unfold takeHeader at hs
      simp only at hs
      split at hs
      next => cases hs
      next => split at hs <;> cases hs
      next =>
        cases hs
        rfl
      next => cases hs
    next =>
      unfold takeChunk at hs
      simp only at hs
      split at hs
      next => cases hs
      next => split at hs <;> cases hs
  rw [heq, Intake.submitted, List.map_map]
  exact (List.nodup_append.1 h).1

namespace CreateCall

/-- The ids the submission has read, or has stored, differ from each other. -/
def IdsDiffer (call : CreateCall) : Prop :=
  match call.work with
  | .running (.intake i) => i.idsRead.Nodup
  | .finished (.ok created) => (created.map (·.taskId)).Nodup
  | .running (.standIn _) => False
  | .absent | .finished (.error _) | .broken => True

theorem idsDiffer_ended (result : CreateResult) : (ended result).IdsDiffer := trivial

namespace IdsDiffer

variable {call : CreateCall} {agent : Agent} {store : Store}

/-- The ids depend on nothing but the submission. -/
theorem of_work (h : call.IdsDiffer) {call' : CreateCall} (hwork : call'.work = call.work) :
    call'.IdsDiffer := by
  unfold IdsDiffer
  rw [hwork]
  exact h

/-! ## The call -/

theorem offered (h : call.IdsDiffer) (payload : Nat) (outcome : Sent × Queue (TaskHeader × Nat)) :
    (call.offered payload outcome).IdsDiffer := by
  unfold CreateCall.offered
  simp only
  split
  · exact h.of_work rfl
  · exact h.of_work rfl
  · exact idsDiffer_ended _
  · exact h.of_work rfl

theorem closed (h : call.IdsDiffer) (outcome : Sent × Queue (TaskHeader × Nat)) :
    (call.closed outcome).IdsDiffer := by
  unfold CreateCall.closed
  simp only
  split
  · exact h.of_work rfl
  · exact idsDiffer_ended _
  · exact h.of_work rfl

theorem feed (h : call.IdsDiffer) (stopped : Bool) (entry : Entry Bytes) :
    (call.feed stopped entry).IdsDiffer := by
  unfold CreateCall.feed
  split
  · exact h
  · split
    · exact h
    · split
      · exact idsDiffer_ended _
      · exact h.of_work rfl
      · exact h.of_work rfl

/-- A request begins a submission, which has read nothing, or leaves it alone. -/
theorem perform (h : call.IdsDiffer) (agent : Agent) (store : Store) (step : CreateStep) :
    (call.perform agent (.ofStore store) step).IdsDiffer := by
  cases step with
  | init options => exact List.nodup_nil
  | header header =>
    simp only [CreateCall.perform, announce]
    split
    · apply IdsDiffer.offered
      exact h.of_work rfl
    · exact h.of_work rfl
  | data data => exact h.feed _ _
  | dataComplete => exact h.feed _ _
  | lastTask =>
    simp only [CreateCall.perform]
    split
    · exact h.closed _
    · exact h.of_work rfl

theorem receive (h : call.IdsDiffer) (agent : Agent) (store : Store) (request : CreateRequest) :
    (call.receive agent (.ofStore store) request).IdsDiffer := by
  unfold CreateCall.receive
  split
  · exact idsDiffer_ended _
  · split
    · exact idsDiffer_ended _
    · split
      · exact idsDiffer_ended _
      · apply IdsDiffer.perform
        exact h.of_work rfl

/-- What the call does by itself keeps it. -/
theorem advance (h : call.IdsDiffer) {agent' : Agent} {call' : CreateCall}
    (hadvance : call.advance agent (.ofStore store) = some (agent', call')) :
    call'.IdsDiffer := by
  unfold CreateCall.advance at hadvance
  split at hadvance
  next => cases hadvance
  next =>
    split at hadvance
    next => cases hadvance
    next =>
      cases hadvance
      exact idsDiffer_ended _
    next =>
      cases hadvance
      apply IdsDiffer.receive
      exact h.of_work rfl
  next =>
    split at hadvance
    next =>
      cases hadvance
      exact idsDiffer_ended _
    next =>
      split at hadvance
      next => cases hadvance
      next =>
        split at hadvance
        next => cases hadvance
        next =>
          cases hadvance
          exact h.offered _ _
  next =>
    split at hadvance
    next =>
      cases hadvance
      exact idsDiffer_ended _
    next =>
      split at hadvance
      next => cases hadvance
      next =>
        split at hadvance
        next => cases hadvance
        next =>
          cases hadvance
          exact h.closed _
  next =>
    split at hadvance
    next =>
      cases hadvance
      exact idsDiffer_ended _
    next => cases hadvance
    next outcome _ =>
      cases outcome with
      | ok created | error cause =>
        cases hadvance
        exact idsDiffer_ended _

/-! ## The submission -/

/-- What the submission does keeps it: what it reads on with was free among what it had read, and
what it stores is what it has read. -/
theorem advanceWork (h : call.IdsDiffer) {stopped : Bool} {backend' : Backend}
    {call' : CreateCall}
    (hadvance : call.advanceWork stopped (.ofStore store) = some (backend', call')) :
    call'.IdsDiffer := by
  unfold CreateCall.advanceWork at hadvance
  unfold IdsDiffer at h
  split at hadvance
  next work hwork =>
    rw [hwork] at h
    cases work with
    | standIn s => cases h
    | intake i =>
      simp only [CreateWork.step, Backend.ofStore] at hadvance
      cases hstep : i.step store stopped call.queues with
      | mk progress queues =>
        rw [hstep] at hadvance
        cases progress with
        | waiting => cases hadvance
        | broken =>
          cases hadvance
          trivial
        | going i' =>
          cases hadvance
          exact (Intake.goesOn_of_step hstep).nodup_idsRead h
        | ended outcome =>
          cases outcome with
          | error cause =>
            cases hadvance
            trivial
          | ok submitted =>
            cases hadvance
            exact Intake.nodup_created_of_step hstep h
  next => cases hadvance
  next => cases hadvance
  next => cases hadvance

/-- Whatever moves keeps it. -/
theorem moves (h : call.IdsDiffer) {r : Agent × Backend × CreateCall}
    (hmove : call.Moves agent (.ofStore store) r) : r.2.2.IdsDiffer := by
  cases hmove with
  | call hadvance => exact h.advance hadvance
  | work hadvance => exact h.advanceWork hadvance

end IdsDiffer

end CreateCall

end Sidecar
