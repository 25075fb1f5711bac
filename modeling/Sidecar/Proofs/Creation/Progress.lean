import Sidecar.Proofs.Creation.Turn

/-!
# Where a creation call comes to rest

A call rests when neither it nor its submission can move. `CreateCall.Pursues.rests` says where that
is: the call has read everything that has arrived, its stream has not ended, and its submission has
nothing left to read, has failed, or was not begun. No slot is waited for and no outcome, so that
nothing but a further element of the stream can wake the call; in particular nothing that other
calls store can (`CreateCall.Rests`).
-/

namespace Sidecar

/-- Whether a submission waits does not depend on what is stored. -/
theorem Intake.step_waiting {i : Intake} {store : Store} {stopped : Bool} {qs : TaskQueues}
    (h : (i.step store stopped qs).1 = .waiting) (store' : Store) :
    (i.step store' stopped qs).1 = .waiting := by
  unfold step at h ⊢
  cases hc : i.current with
  | none =>
    simp only [hc] at h ⊢
    unfold takeHeader at h ⊢
    cases hrecv : qs.headers.recv stopped with
    | mk got headers =>
      simp only [hrecv] at h ⊢
      cases got with
      | item entry =>
        simp only at h
        split at h <;> cases h
      | pending => rfl
      | ended | error e => cases h
  | some u =>
    simp only [hc] at h ⊢
    unfold takeChunk at h ⊢
    cases hq : qs.payloads[u.payload]? with
    | none => rfl
    | some q =>
      simp only [hq] at h ⊢
      have hwaits : (drain store stopped ("task " ++ u.header.id) u.received q).1 = .waiting := by
        split at h
        · assumption
        · cases h
        · cases h
        · cases h
      rw [drain_waiting_iff.2 (drain_waiting_iff.1 hwaits)]

namespace CreateCall

/-- Nothing moves by itself, whatever is stored and whatever was created, until the agent is
stopped. -/
def Rests (call : CreateCall) : Prop :=
  ∀ (agent : Agent) (store : Store), agent.stopped = false →
    ∀ r, ¬ call.Moves agent (.ofStore store) r

variable {call : CreateCall} {agent : Agent} {store : Store} {ended : Bool}
  {verdict : CreateVerdict} {b : Batch}

/-- The call waits: for more of its stream, for a slot, or for the outcome of its submission. -/
def Waits (call : CreateCall) (stopped : Bool) : Prop :=
  match call.phase with
  | .reading => call.inbox.take stopped "CreateTask" = .waiting
  | .offering _ | .closing =>
    stopped = false ∧ ∀ entry, call.queues.headers.waiting = some entry →
      (call.queues.headers.resume stopped entry).1 = .suspended
  | .waiting => (call.work.background []).wait stopped = .pending
  | .done _ => True

/-- A call does not move exactly if it waits. This depends on neither the store nor the agent,
unless that is stopped. -/
theorem advance_eq_none_iff {backend : Backend} :
    call.advance agent backend = none ↔ call.Waits agent.stopped := by
  unfold advance Waits
  cases call.phase with
  | done => simp
  | reading => cases call.inbox.take agent.stopped "CreateTask" <;> simp
  | waiting => cases (call.work.background []).wait agent.stopped <;> simp
  | offering | closing =>
    cases hstopped : agent.stopped with
    | true => simp
    | false =>
      cases call.queues.headers.waiting with
      | none => simp
      | some entry =>
        simp only [Bool.false_eq_true, if_false, Option.some.injEq, forall_eq', true_and]
        generalize call.queues.headers.resume false entry = outcome
        obtain ⟨sent, headers⟩ := outcome
        cases sent <;> simp

/-- Whether the submission waits does not depend on what is stored. -/
theorem advanceWork_eq_none {stopped : Bool}
    (h : call.advanceWork stopped (.ofStore store) = none)
    (hwork : ∀ s, call.work ≠ .running (.standIn s)) (store' : Store) :
    call.advanceWork stopped (.ofStore store') = none := by
  unfold advanceWork at h ⊢
  cases hw : call.work with
  | running work =>
    cases work with
    | standIn s => exact absurd hw (hwork s)
    | intake i =>
      simp only [hw, CreateWork.step, Backend.ofStore] at h ⊢
      have hwaits : (i.step store stopped call.queues).1 = .waiting := by
        generalize i.step store stopped call.queues = progress at h
        obtain ⟨p, qs⟩ := progress
        cases p with
        | waiting => rfl
        | going i' => cases h
        | broken => cases h
        | ended outcome => cases outcome <;> cases h
      rw [Intake.step_waiting hwaits store']
      rfl
  | absent | finished outcome | broken => rfl

theorem advance_eq_none_of_not_moves {backend : Backend} (h : ∀ r, ¬ call.Moves agent backend r) :
    call.advance agent backend = none := by
  cases hadvance : call.advance agent backend with
  | none => rfl
  | some r => exact absurd (.call hadvance) (h _)

theorem advanceWork_eq_none_of_not_moves {backend : Backend}
    (h : ∀ r, ¬ call.Moves agent backend r) : call.advanceWork agent.stopped backend = none := by
  cases hadvance : call.advanceWork agent.stopped backend with
  | none => rfl
  | some r => exact absurd (.work hadvance) (h _)

/-- What does not move for one agent and one store moves for none. -/
theorem rests_of_not_moves (hrun : agent.stopped = false)
    (hwork : ∀ s, call.work ≠ .running (.standIn s))
    (h : ∀ r, ¬ call.Moves agent (.ofStore store) r) : call.Rests := by
  have hadvance := advance_eq_none_of_not_moves h
  have hadvanceWork := advanceWork_eq_none_of_not_moves h
  intro agent' store' hrun' r hmove
  cases hmove with
  | call hmove =>
    rw [advance_eq_none_iff, hrun, ← hrun'] at hadvance
    rw [advance_eq_none_iff.2 hadvance] at hmove
    cases hmove
  | work hmove =>
    rw [hrun', ← hrun, advanceWork_eq_none hadvanceWork hwork] at hmove
    cases hmove

namespace Pursues

/-- A submission that waits for something while the call waits for it has nothing to wait for. -/
theorem not_starved {i : Intake}
    (hfollows : i.Follows agent.identity b call.endsHeaders call.queues)
    (horder : call.InOrder b) (hwrites : call.Writes b) (hphase : call.phase ≠ .reading)
    (hfull : call.phase ≠ .waiting → call.queues.headers.buffer ≠ []) :
    ¬ i.Starved b call.queues := by
  have hqueue := hfollows.headers
  rintro (⟨hcur, hbuf⟩ | ⟨hcur, hle⟩)
  · -- Nothing is in the queue of headers, so that the call waits for the submission to end.
    have hwaiting : call.phase = .waiting := Classical.byContradiction fun hne => hfull hne hbuf
    simp only [Writes, hwaiting] at hwrites
    rw [hbuf, hwrites.2] at hqueue
    simp [endsHeaders, hwaiting] at hqueue
  · -- The payload of the last task is not complete, so that the call waits for a slot for it.
    obtain ⟨u, hu⟩ := Option.isSome_iff_exists.1 hcur
    obtain ⟨t, ht, -⟩ := hfollows.getElem?_current hu
    have hlt := (List.getElem?_eq_some_iff.1 ht).1
    cases hb : b.current with
    | none =>
      rw [Batch.tasks_of_current_none hb] at hlt
      omega
    | some s =>
      have hoffering : ∃ payload, call.phase = .offering payload := by
        unfold InOrder at horder
        split at horder <;> simp_all
      obtain ⟨payload, hoffering⟩ := hoffering
      simp only [InOrder, hoffering] at horder
      have hread : b.tasks.length ≤ i.headersRead := by
        rw [Batch.tasks_of_current hb, Intake.headersRead, hu]
        simp only [List.length_append, List.length_singleton, Option.toList_some]
        omega
      rw [Batch.entriesFrom_of_le hread] at hqueue
      obtain ⟨entry, hentry⟩ := Option.isSome_iff_exists.1 horder.2.2.2
      simp [endsHeaders, hoffering, hentry] at hqueue

/-- A submission that runs and cannot move starves. -/
theorem starved_of_advanceWork {i : Intake} (hwork : call.work = .running (.intake i))
    (hfollows : i.Follows agent.identity b call.endsHeaders call.queues)
    (hwrites : call.Writes b) (hidle : call.advanceWork false (.ofStore store) = none) :
    i.Starved b call.queues := by
  have hnext := hfollows.step hwrites.ends_of_writerGone store
  simp only [advanceWork, hwork, CreateWork.step, Backend.ofStore] at hidle
  generalize i.step store false call.queues = progress at hnext hidle
  cases hnext with
  | starves hstarved => exact hstarved
  | reads | fails | submits => cases hidle

/-- A call that waits for its submission, or for a slot, does not find it waiting too. -/
theorem not_running_of_full (h : call.Pursues agent ended verdict b)
    (hidle : call.advanceWork false (.ofStore store) = none) (hphase : call.phase ≠ .reading)
    (hfull : call.phase ≠ .waiting → call.queues.headers.hasRoom = false) (i : Intake) :
    call.work ≠ .running (.intake i) := by
  intro hi
  have hwork := h.serves.work
  simp only [Submits, hi] at hwork
  obtain ⟨-, hwrites, ⟨slots, hcapacity, hslots⟩, hfollows⟩ := hwork
  have hstarved := starved_of_advanceWork hi hfollows hwrites hidle
  refine not_starved hfollows h.serves.order hwrites hphase ?_ hstarved
  intro hne hbuf
  have hroom := hfull hne
  simp only [Queue.hasRoom, hcapacity, hbuf, List.length_nil, decide_eq_false_iff_not] at hroom
  exact hroom hslots

/-- A header or an end that is outstanding finds room, or is refused. -/
theorem not_suspended (h : call.Pursues agent ended verdict b)
    (hidle : call.advanceWork false (.ofStore store) = none)
    (hheld : call.headersHeld = true) (hstate : call.machine.state ≠ .idle)
    (hreading : call.phase ≠ .reading) (hnotWaiting : call.phase ≠ .waiting)
    (entry : Entry (TaskHeader × Nat)) :
    (call.queues.headers.resume false entry).1 ≠ .suspended := by
  rcases submission_of_held h.serves hheld hstate hnotWaiting with
    ⟨i, hi, -, -, hfollows⟩ | ⟨cause, -, hgone⟩
  · cases hroom : call.queues.headers.hasRoom with
    | false => exact absurd hi (h.not_running_of_full hidle hreading (fun _ => hroom) i)
    | true =>
      rw [Queue.resume_of_hasRoom hfollows.reader hroom]
      exact nofun
  · rw [Queue.resume_of_readerGone hgone]
    exact nofun

/-- A call that waits for its submission finds that it is over. -/
theorem not_pending (h : call.Pursues agent ended verdict b)
    (hidle : call.advanceWork false (.ofStore store) = none) (hphase : call.phase = .waiting) :
    (call.work.background []).wait false ≠ .pending := by
  intro hpending
  have horder := h.serves.order
  have hwork := h.serves.work
  simp only [InOrder, hphase] at horder
  unfold Submits at hwork
  split at hwork
  next => simp [horder.1] at hwork
  next i hi =>
    exact h.not_running_of_full hidle (by simp [hphase]) (fun hne => absurd hphase hne) i hi
  next => cases hwork
  next created hw =>
    rw [hw] at hpending
    cases hpending
  next cause hw =>
    rw [hw] at hpending
    cases hpending
  next => cases hwork

/-- A call that cannot move has read all there is, and waits for more of its stream. -/
theorem rests (h : call.Pursues agent ended verdict b) (hrun : agent.stopped = false)
    (hidle : ∀ r, ¬ call.Moves agent (.ofStore store) r) :
    call.Rests ∧ ended = false ∧ call.inbox = ⟨[], false⟩ ∧ ¬ call.HasStored ∧
      call.phase = .reading ∧ verdict = .undecided call.machine.state b := by
  have horder := h.serves.order
  have hrests : call.Rests := by
    refine rests_of_not_moves hrun (?_) hidle
    intro s hs
    have hwork := h.serves.work
    rw [Submits, hs] at hwork
    exact hwork
  have hwaits := advance_eq_none_iff.1 (advance_eq_none_of_not_moves hidle)
  have hworkWaits := advanceWork_eq_none_of_not_moves hidle
  rw [hrun] at hwaits hworkWaits
  cases hphase : call.phase with
  | reading =>
    simp only [Waits, hphase] at hwaits
    simp only [InOrder, hphase] at horder
    obtain ⟨items, hinbox, hverdict⟩ := h.stream
    have hempty := Inbox.eq_empty_of_take_waiting hwaits
    obtain ⟨hitems, rfl⟩ := Inbox.mk.inj (hinbox.symm.trans hempty)
    obtain rfl := List.map_eq_nil_iff.1 hitems
    rw [prospect, if_neg horder.1] at hverdict
    exact ⟨hrests, rfl, hempty, h.serves.not_hasStored (by simp [hphase]), rfl, hverdict.symm⟩
  | offering | closing =>
    simp only [Waits, hphase, true_and] at hwaits
    simp only [InOrder, hphase] at horder
    obtain ⟨hstate, -, hheld, hwaiting⟩ := horder
    obtain ⟨entry, hentry⟩ := Option.isSome_iff_exists.1 hwaiting
    exact absurd (hwaits entry hentry) (h.not_suspended hworkWaits hheld (by simp [hstate])
      (by simp [hphase]) (by simp [hphase]) entry)
  | waiting =>
    simp only [Waits, hphase] at hwaits
    exact absurd hwaits (h.not_pending hworkWaits hphase)
  | done result => simp [InOrder, hphase] at horder

end Pursues

end CreateCall

end Sidecar
