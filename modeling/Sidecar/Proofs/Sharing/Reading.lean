import Sidecar.Proofs.Creation.Call

/-!
# What a submission has read

`CreateCall.readIds` are the ids whose headers the submission of a call has read, and found free, on
the way to storing them, and `CreateCall.commit?` is the batch its next step stores. Only a step of
the submission itself reads an id or stores a batch: a step of the call leaves its submission as it
was, or begins or ends it (`CreateCall.keepsWork_advance`).
-/

namespace Sidecar

namespace Intake

/-- The ids whose headers were read. -/
def readIds (i : Intake) : List String :=
  i.staged.map (·.header.id) ++ (i.current.map (·.header.id)).toList

/-- A step that goes on reads at most one more id, and one that is not taken. -/
theorem readIds_step {i i' : Intake} {store : Store} {stopped : Bool} {qs qs' : TaskQueues}
    (h : i.step store stopped qs = (.going i', qs')) :
    i'.readIds = i.readIds ∨
      ∃ id, i'.readIds = i.readIds ++ [id] ∧ store.tasks.contains id = false := by
  unfold step at h
  cases hcurrent : i.current with
  | none =>
    simp only [hcurrent, takeHeader] at h
    split at h
    · cases h
    · split at h
      · cases h
      next header payload _ htaken =>
        cases h
        refine .inr ⟨header.id, by simp [readIds, hcurrent], ?_⟩
        simp only [isTaken, Bool.or_eq_true, not_or, Bool.not_eq_true] at htaken
        exact htaken.1
    · cases h
    · cases h
  | some u =>
    simp only [hcurrent, takeChunk] at h
    split at h
    · cases h
    · split at h
      · cases h
      · cases h
        exact .inl (by simp [readIds, hcurrent])
      · cases h
      · cases h
        exact .inl (by simp [readIds, hcurrent, task])

/-- What a step ends with are the tasks whose headers were read. -/
theorem tasks_of_step {i : Intake} {store : Store} {stopped : Bool} {qs qs' : TaskQueues}
    {submitted : Submitted} (h : i.step store stopped qs = (.ended (.ok submitted), qs')) :
    submitted = i.submitted ∧ i.readIds = submitted.tasks.map (·.header.id) := by
  unfold step at h
  cases hcurrent : i.current with
  | none =>
    simp only [hcurrent, takeHeader] at h
    split at h
    · cases h
    · split at h <;> cases h
    · cases h
      exact ⟨rfl, by simp [readIds, hcurrent, submitted]⟩
    · cases h
  | some u =>
    simp only [hcurrent, takeChunk] at h
    split at h
    · cases h
    · split at h <;> cases h

end Intake

namespace CreateCall

/-- The ids whose headers the submission has read, while it runs. -/
def readIds (call : CreateCall) : List String :=
  match call.work with
  | .running (.intake i) => i.readIds
  | .running (.standIn _) | .absent | .finished _ | .broken => []

/-- The batch the next step of the submission puts into the store, if it is the last one. -/
def commit? (call : CreateCall) (stopped : Bool) (store : Store) : Option Submitted :=
  match call.work with
  | .running work =>
    match work.step store stopped call.queues with
    | (.ended (.ok submitted), _) => some submitted
    | _ => none
  | .absent | .finished _ | .broken => none

/-! ## What the steps of a call do to its submission -/

/-- The submission is as it was, or is gone, or begins. -/
def KeepsWork (call call' : CreateCall) : Prop :=
  call'.work = call.work ∨ call'.work = .absent ∨
    ∃ identity options, call'.work = .running (.intake (.start identity options))

theorem keepsWork_offered (call : CreateCall) (payload : Nat)
    (outcome : Sent × Queue (TaskHeader × Nat)) :
    call.KeepsWork (call.offered payload outcome) := by
  obtain ⟨sent, headers⟩ := outcome
  simp only [offered]
  split
  · exact .inl rfl
  · exact .inl rfl
  · exact .inr (.inl rfl)
  · exact .inl rfl

theorem keepsWork_announce (call : CreateCall) (stopped : Bool) (header : TaskHeader) :
    call.KeepsWork (call.announce stopped header) := by
  simp only [announce]
  split
  · exact keepsWork_offered _ _ _
  · exact .inl rfl

theorem keepsWork_feed (call : CreateCall) (stopped : Bool) (entry : Entry Bytes) :
    call.KeepsWork (call.feed stopped entry) := by
  unfold feed
  split
  · exact .inl rfl
  · split
    · exact .inl rfl
    · split
      · exact .inr (.inl rfl)
      · exact .inl rfl
      · exact .inl rfl

theorem keepsWork_closed (call : CreateCall) (outcome : Sent × Queue (TaskHeader × Nat)) :
    call.KeepsWork (call.closed outcome) := by
  obtain ⟨sent, headers⟩ := outcome
  simp only [closed]
  split
  · exact .inl rfl
  · exact .inr (.inl rfl)
  · exact .inl rfl

theorem keepsWork_perform (call : CreateCall) (agent : Agent) (store : Store) (step : CreateStep) :
    call.KeepsWork (call.perform agent (.ofStore store) step) := by
  cases step with
  | init options => exact .inr (.inr ⟨_, _, rfl⟩)
  | header header => exact keepsWork_announce _ _ _
  | data data => exact keepsWork_feed _ _ _
  | dataComplete => exact keepsWork_feed _ _ _
  | lastTask =>
    simp only [perform]
    split
    · exact keepsWork_closed _ _
    · exact .inl rfl

theorem keepsWork_receive (call : CreateCall) (agent : Agent) (store : Store)
    (request : CreateRequest) : call.KeepsWork (call.receive agent (.ofStore store) request) := by
  unfold receive
  split
  · exact .inr (.inl rfl)
  · split
    · exact .inr (.inl rfl)
    · split
      · exact .inr (.inl rfl)
      · exact keepsWork_perform _ _ _ _

/-- A step of the call itself leaves its submission as it was, or begins or ends it. -/
theorem keepsWork_advance {call call' : CreateCall} {agent agent' : Agent} {store : Store}
    (h : call.advance agent (.ofStore store) = some (agent', call')) : call.KeepsWork call' := by
  unfold advance at h
  split at h
  · cases h
  · split at h
    · cases h
    · cases h
      exact .inr (.inl rfl)
    · cases h
      exact keepsWork_receive _ _ _ _
  · split at h
    · cases h
      exact .inr (.inl rfl)
    · split at h
      · cases h
      · split at h
        · cases h
        · cases h
          exact keepsWork_offered _ _ _
  · split at h
    · cases h
      exact .inr (.inl rfl)
    · split at h
      · cases h
      · split at h
        · cases h
        · cases h
          exact keepsWork_closed _ _
  · split at h
    · cases h
      exact .inr (.inl rfl)
    · cases h
    · unfold conclude at h
      split at h <;> cases h <;> exact .inr (.inl rfl)

/-- A submission that is as it was, or is gone, or begins, has read no more than before. -/
theorem KeepsWork.readIds {call call' : CreateCall} (h : call.KeepsWork call') :
    call'.readIds = call.readIds ∨ call'.readIds = [] := by
  rcases h with hwork | hwork | ⟨identity, options, hwork⟩
  · exact .inl (by rw [CreateCall.readIds, CreateCall.readIds, hwork])
  · exact .inr (by rw [CreateCall.readIds, hwork])
  · exact .inr (by rw [CreateCall.readIds, hwork]; rfl)

/-- A submission that is as it was, or is gone, or begins, has stored something only if it had
before. -/
theorem KeepsWork.hasStored {call call' : CreateCall} (h : call.KeepsWork call')
    (hstored : call'.HasStored) : call.HasStored := by
  obtain ⟨created, hcreated⟩ := hstored
  rcases h with hwork | hwork | ⟨identity, options, hwork⟩
  · exact ⟨created, hwork.symm.trans hcreated⟩
  · rw [hwork] at hcreated
    cases hcreated
  · rw [hwork] at hcreated
    cases hcreated

/-- A step of the submission stores what it commits, or reads at most one more id, one that is not
taken. -/
theorem advanceWork_effect {call call' : CreateCall} {stopped : Bool} {store : Store}
    {backend' : Backend} (h : call.advanceWork stopped (.ofStore store) = some (backend', call')) :
    (∃ submitted, call.commit? stopped store = some submitted ∧
      backend'.store = store.addTasks submitted.tasks ∧
      call'.work = .finished (.ok submitted.created)) ∨
    (call.commit? stopped store = none ∧ backend'.store = store ∧ ¬ call'.HasStored ∧
      (call'.readIds = call.readIds ∨ call'.readIds = [] ∨
        ∃ id, call'.readIds = call.readIds ++ [id] ∧ store.tasks.contains id = false)) := by
  unfold advanceWork at h
  unfold commit?
  cases hwork : call.work with
  | running work =>
    simp only [hwork, Backend.ofStore] at h ⊢
    split at h
    · cases h
    next next queues hstep =>
      cases h
      refine .inr ⟨by simp [hstep], rfl, by simp [HasStored], ?_⟩
      cases work with
      | intake i =>
        simp only [CreateWork.step] at hstep
        cases hi : i.step store stopped call.queues with
        | mk progress queues =>
          rw [hi] at hstep
          cases progress with
          | going i' =>
            cases hstep
            rcases Intake.readIds_step hi with hsame | hmore
            · exact .inl (by simp [readIds, hwork, hsame])
            · exact .inr (.inr (by simpa [readIds, hwork] using hmore))
          | waiting | ended | broken => cases hstep
      | standIn s =>
        cases next with
        | intake i =>
          simp only [CreateWork.step] at hstep
          cases hs : s.step stopped call.queues.headers with
          | mk progress headers =>
            rw [hs] at hstep
            cases progress <;> cases hstep
        | standIn s' => exact .inr (.inl rfl)
    next queues hstep =>
      cases h
      exact .inr ⟨by simp [hstep], rfl, by simp [HasStored, workDone], .inr (.inl rfl)⟩
    next cause queues hstep =>
      cases h
      exact .inr ⟨by simp [hstep], rfl, by simp [HasStored, workDone], .inr (.inl rfl)⟩
    next submitted queues hstep =>
      cases h
      exact .inl ⟨submitted, by simp [hstep], rfl, rfl⟩
  | absent | finished outcome | broken =>
    simp only [hwork] at h
    cases h

/-- What is committed is the batch of an intake. A stand-in stores nothing. -/
theorem commit?_eq_some {call : CreateCall} {stopped : Bool} {store : Store}
    {submitted : Submitted} (h : call.commit? stopped store = some submitted) :
    (∃ i qs, call.work = .running (.intake i) ∧
      i.step store stopped call.queues = (.ended (.ok submitted), qs)) ∨
    (∃ s, call.work = .running (.standIn s) ∧ submitted.tasks = []) := by
  unfold commit? at h
  cases hwork : call.work with
  | running work =>
    simp only [hwork] at h
    split at h
    next found queues hstep =>
      cases h
      cases work with
      | intake i =>
        simp only [CreateWork.step] at hstep
        cases hi : i.step store stopped call.queues with
        | mk progress qs =>
          rw [hi] at hstep
          cases progress with
          | ended outcome =>
            cases outcome with
            | ok submitted =>
              cases hstep
              exact .inl ⟨i, qs, rfl, hi⟩
            | error cause => cases hstep
          | waiting | going | broken => cases hstep
      | standIn s =>
        simp only [CreateWork.step] at hstep
        cases hs : s.step stopped call.queues.headers with
        | mk progress headers =>
          rw [hs] at hstep
          cases progress with
          | ended outcome =>
            cases outcome with
            | ok submitted =>
              cases hstep
              exact .inr ⟨s, rfl, rfl⟩
            | error cause => cases hstep
          | waiting | going | broken => cases hstep
    next => cases h
  | absent | finished | broken =>
    simp only [hwork] at h
    cases h

/-- A submission that takes no step commits nothing. -/
theorem commit?_of_advanceWork_eq_none {call : CreateCall} {stopped : Bool} {store : Store}
    (h : call.advanceWork stopped (.ofStore store) = none) : call.commit? stopped store = none := by
  unfold advanceWork at h
  unfold commit?
  split at h
  · simp only [Backend.ofStore] at h
    split at h <;> cases h
    simp_all
  · simp_all
  · simp_all
  · simp_all

/-- A step of the submission leaves the call where it stands. -/
theorem phase_advanceWork {call call' : CreateCall} {stopped : Bool} {backend backend' : Backend}
    (h : call.advanceWork stopped backend = some (backend', call')) : call'.phase = call.phase := by
  unfold advanceWork at h
  split at h
  · split at h <;> cases h <;> rfl
  · cases h
  · cases h
  · cases h

end CreateCall

end Sidecar
