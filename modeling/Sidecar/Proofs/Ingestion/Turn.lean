import Sidecar.Proofs.Ingestion.Call
import Sidecar.Proofs.Submission.Store

/-!
# The turns of a result call

A result call and its submission move independently of each other (`ResultCall.Moves`).
`ResultCall.Pursues` says what a call that is not over makes of its stream, however far it has got.
Whatever moves keeps the verdict, until the call ends as the verdict says
(`ResultCall.Pursues.turn`). A call that cannot move waits for more of its stream
(`ResultCall.Pursues.rests`).
-/

namespace Sidecar

namespace ResultCall

/-- A call or its submission takes its next step. -/
inductive Moves (agent : Agent) (backend : Backend) (call : ResultCall) :
    Agent × Backend × ResultCall → Prop where
  | call {agent' : Agent} {call' : ResultCall}
      (h : call.advance agent backend = some (agent', call')) :
      Moves agent backend call (agent', backend, call')
  | work {backend' : Backend} {call' : ResultCall}
      (h : call.advanceWork agent.stopped backend = some (backend', call')) :
      Moves agent backend call (agent, backend', call')

/-- A call that may take a step makes a move. -/
theorem moves_of_step {call : ResultCall} {agent : Agent} {backend : Backend}
    {r : Agent × Backend × ResultCall} (h : call.step agent backend = some r) :
    call.Moves agent backend r := by
  unfold step at h
  split at h
  next hadvance =>
    cases h
    exact .call hadvance
  next =>
    split at h
    next hwork =>
      cases h
      exact .work hwork
    next => cases h

/-- A call that takes no step makes no move. -/
theorem not_moves_of_step_eq_none {call : ResultCall} {agent : Agent} {backend : Backend}
    (h : call.step agent backend = none) (r : Agent × Backend × ResultCall) :
    ¬ call.Moves agent backend r := by
  intro hmove
  unfold step at h
  cases hmove with
  | call hadvance =>
    rw [hadvance] at h
    cases h
  | work hwork =>
    split at h
    · cases h
    · rw [hwork] at h
      cases h

/-- A call that is over does not move. -/
theorem not_moves_ended (result : ResultResult) (agent : Agent) (backend : Backend)
    (r : Agent × Backend × ResultCall) : ¬ (ended result).Moves agent backend r := by
  intro hmove
  cases hmove with
  | call h => cases h
  | work h => cases h

/-- What a call that has asked for a deposit comes to when the items are still to be read. -/
def prospect (call : ResultCall) (token : Token) (d : Deposit)
    (items : List (Except Cause ResultRequest)) : ResultVerdict :=
  match call.phase with
  | .waiting presented => .complete (d, presented)
  | .reading | .done _ => scanResults token call.machine.state d items

/-- A call that is not over, and what it makes of its stream. -/
structure Pursues (call : ResultCall) (agent : Agent) (ended : Bool) (verdict : ResultVerdict)
    (d : Deposit) : Prop where
  serves : call.Serves agent.identity d
  stream : ∃ items, call.inbox = ⟨items.map .ofItem, ended⟩ ∧
    call.prospect agent.token d items = verdict

/-- What a move comes to: the call or its submission gets on; the stream decides the call; the
submission stores the result; or the call replies. -/
inductive Turn (agent : Agent) (store : Store) (ended : Bool) (verdict : ResultVerdict)
    (d : Deposit) (call : ResultCall) : Agent × Backend × ResultCall → Prop where
  | goesOn {d' : Deposit} {call' : ResultCall} (h : call'.Pursues agent ended verdict d')
      (hbefore : ¬ call.HasStored) (hafter : ¬ call'.HasStored)
      (hchecked : call.Checked store d → call'.Checked store d') :
      Turn agent store ended verdict d call (agent, .ofStore store, call')
  | breaksOff {result : ResultResult} (h : verdict.Decides "SendResult" ended result)
      (hbefore : ¬ call.HasStored) :
      Turn agent store ended verdict d call (agent, .ofStore store, ResultCall.ended result)
  | stores {call' : ResultCall} {token : String} (h : call'.Pursues agent ended verdict d)
      (hverdict : verdict = .complete (d, token)) (hbefore : ¬ call.HasStored)
      (hafter : call'.HasStored) (hchecked : call.Checked store d → store.Accepts d) :
      Turn agent store ended verdict d call
        (agent, .ofStore (store.addResult d.key (d.stored agent.identity)), call')
  | replies {token : String} (hverdict : verdict = .complete (d, token))
      (hbefore : call.HasStored) :
      Turn agent store ended verdict d call
        (agent, .ofStore store, ResultCall.ended (.ok .ok))
  | refuses {token : String} (hverdict : verdict = .complete (d, token))
      (hbefore : ¬ call.HasStored) (hchecked : call.Checked store d → ¬ store.Accepts d) :
      Turn agent store ended verdict d call
        (agent, .ofStore store, ResultCall.ended (.ok (.error token resultFailed)))

namespace Pursues

variable {call : ResultCall} {agent : Agent} {store : Store} {ended : Bool}
  {verdict : ResultVerdict} {d : Deposit}

/-- A call that reads takes in the next element of its stream. -/
theorem turn_reading (h : call.Pursues agent ended verdict d) (hrun : agent.stopped = false)
    (hphase : call.phase = .reading) {agent' : Agent} {call' : ResultCall}
    (hmove : call.advance agent (.ofStore store) = some (agent', call')) :
    Turn agent store ended verdict d call (agent', .ofStore store, call') := by
  obtain ⟨items, hinbox, hverdict⟩ := h.stream
  have hunstored := h.serves.not_hasStored hphase
  simp only [prospect, hphase] at hverdict
  simp only [advance, hphase, Inbox.take, hinbox, hrun, Bool.false_eq_true, if_false] at hmove
  cases items with
  | nil =>
    cases ended with
    | false => cases hmove
    | true =>
      cases hmove
      subst hverdict
      exact .breaksOff (.runsOut _ _ rfl) hunstored
  | cons item rest =>
    rw [scanResults, scanStream] at hverdict
    cases item with
    | error cause =>
      cases hmove
      subst hverdict
      exact .breaksOff (.decided _) hunstored
    | ok request =>
      simp only [List.map_cons, Arrival.ofItem, Bool.false_eq_true, if_false, Option.some.injEq,
        Prod.mk.injEq] at hmove
      obtain ⟨rfl, rfl⟩ := hmove
      have hserves := h.serves.setInbox ⟨rest.map .ofItem, ended⟩
      have hreceive := hserves.receive hphase hrun store request
      simp only [hphase] at hreceive
      cases hexamine : examineIngestion agent.token call.machine.state d (.ok request) with
      | decided result =>
        rw [hexamine] at hreceive hverdict
        rw [hreceive]
        subst hverdict
        exact .breaksOff (.decided _) hunstored
      | undecided next d' =>
        simp only [hexamine] at hreceive hverdict
        refine .goesOn ⟨hreceive.serves, rest, hreceive.inbox, ?_⟩ hunstored hreceive.unstored
          hreceive.checked
        simp only [prospect, hreceive.phase, hreceive.state]
        exact hverdict
      | complete found =>
        obtain ⟨d', token⟩ := found
        simp only [hexamine] at hreceive hverdict
        refine .goesOn ⟨hreceive.serves, rest, hreceive.inbox, ?_⟩ hunstored hreceive.unstored
          hreceive.checked
        simp only [prospect, hreceive.phase]
        exact hverdict

/-- A call that has read its whole stream replies what its submission has come to. -/
theorem turn_waiting (h : call.Pursues agent ended verdict d) (hrun : agent.stopped = false)
    {token : String} (hphase : call.phase = .waiting token) {agent' : Agent} {call' : ResultCall}
    (hmove : call.advance agent (.ofStore store) = some (agent', call')) :
    Turn agent store ended verdict d call (agent', .ofStore store, call') := by
  obtain ⟨items, -, hverdict⟩ := h.stream
  have hstate := h.serves.order
  simp only [InOrder, hphase] at hstate
  simp only [prospect, hphase] at hverdict
  have hwork := h.serves.work
  simp only [advance, hphase, hrun, Background.wait, Bool.false_eq_true, if_false] at hmove
  unfold Submits at hwork
  split at hwork
  next => simp [hstate] at hwork
  next i hi =>
    simp only [hi, Work.background] at hmove
    cases hmove
  next => cases hwork
  next hw =>
    simp only [hw, Work.background] at hmove
    cases hmove
    exact .replies hverdict.symm hw
  next cause hw =>
    simp only [hw, Work.background] at hmove
    cases hmove
    refine .refuses hverdict.symm (by simp [HasStored, hw]) ?_
    intro hchecked
    simpa [Checked, hw] using hchecked
  next => cases hwork

/-- What the submission finds when it reads on: a chunk, which may be one too many; the end, and
then the result is whole; or nothing yet. -/
theorem step_intake {i : ResultIntake} {closed : Bool}
    (hfollows : i.Follows agent.identity d closed call.queue) (store : Store) :
    (∃ i' q', i.step store false call.queue = (.going i', q') ∧
      i'.Follows agent.identity d closed q' ∧ store.isTooLong i'.received.length = false) ∨
    (∃ cause q', i.step store false call.queue = (.ended (.error cause), q') ∧
      ¬ store.Accepts d) ∨
    (closed = true ∧ d.payload = i.received ∧ ∃ q', i.step store false call.queue =
      (.ended (.ok (d.key, d.stored agent.identity)), q')) ∨
    (closed = false ∧ i.step store false call.queue = (.waiting, call.queue)) := by
  obtain ⟨rest, hcarries, hpay⟩ := hfollows.payload
  rcases hcarries.drain store ("result " ++ i.key) i.received with
    ⟨chunk, rest', q', rfl, hcarries', hlong | hshort⟩ | ⟨rfl, hclosed, q', hdrain⟩ |
    ⟨rfl, hopen, hdrain⟩
  · obtain ⟨hlong, cause, hdrain⟩ := hlong
    refine .inr (.inl ⟨cause, q', by simp [ResultIntake.step, hdrain], ?_⟩)
    intro hfits
    simp only [Store.Accepts, hpay, List.length_append] at hfits
    simp only [Store.isTooLong, List.length_append, Bool.and_eq_true, decide_eq_true_eq] at hlong
    omega
  · refine .inl ⟨{ i with received := i.received ++ chunk }, q',
      by simp [ResultIntake.step, hshort.2], ⟨hfollows.owner, hfollows.key, rest', hcarries', ?_⟩,
      hshort.1⟩
    rw [hpay, List.append_assoc]
  · have hreceived : d.payload = i.received := by rw [hpay, List.append_nil]
    refine .inr (.inr (.inl ⟨hclosed, hreceived, q', ?_⟩))
    simp only [ResultIntake.step, hdrain]
    simp [ResultIntake.result, Deposit.stored, hfollows.owner, hfollows.key, hreceived]
  · exact .inr (.inr (.inr ⟨hopen, by simp [ResultIntake.step, hdrain]⟩))

/-- A submission that reads the queue of the call reads on, fails, or stores the result. -/
theorem turn_intake (h : call.Pursues agent ended verdict d) {backend' : Backend}
    {call' : ResultCall} {i : ResultIntake} (hi : call.work = .running (.intake i))
    (hmove : call.advanceWork false (.ofStore store) = some (backend', call')) :
    Turn agent store ended verdict d call (agent, backend', call') := by
  obtain ⟨items, hinbox, hverdict⟩ := h.stream
  have hwork := h.serves.work
  simp only [Submits, hi] at hwork
  obtain ⟨hstate, hwrites, hfollows⟩ := hwork
  have hunstored : ¬ call.HasStored := by simp [HasStored, hi]
  simp only [advanceWork, hi, ResultWork.step, Backend.ofStore] at hmove
  rcases step_intake hfollows store with ⟨i', q', hstep, hfollows', hshort⟩ |
    ⟨cause, q', hstep, hfits⟩ | ⟨hclosed, hreceived, q', hstep⟩ | ⟨-, hstep⟩
  · rw [hstep] at hmove
    cases hmove
    exact .goesOn ⟨⟨h.serves.failed, h.serves.order, hstate, hwrites, hfollows'⟩, items, hinbox,
      hverdict⟩ hunstored (by simp [HasStored]) fun _ => hshort
  · rw [hstep] at hmove
    cases hmove
    exact .goesOn ⟨⟨h.serves.failed, h.serves.order, hstate, fun _ => rfl⟩, items, hinbox,
      hverdict⟩ hunstored (by simp [HasStored, workDone]) fun _ => hfits
  · rw [hstep] at hmove
    cases hmove
    have hterminal : call.machine.state = .terminal := of_decide_eq_true hclosed
    obtain ⟨token, hphase⟩ := h.serves.order.waiting_of_terminal hterminal
    have hcomplete : verdict = .complete (d, token) := by
      rw [← hverdict, prospect, hphase]
    refine .stores ⟨⟨h.serves.failed, h.serves.order, hterminal⟩, items, hinbox, hverdict⟩
      hcomplete hunstored rfl ?_
    intro hchecked
    simp only [Checked, hi] at hchecked
    rwa [← hreceived, Store.isTooLong_eq_false_iff] at hchecked
  · rw [hstep] at hmove
    cases hmove

/-- The submission reads on, fails, or stores the result. -/
theorem turn_work (h : call.Pursues agent ended verdict d) {backend' : Backend}
    {call' : ResultCall}
    (hmove : call.advanceWork false (.ofStore store) = some (backend', call')) :
    Turn agent store ended verdict d call (agent, backend', call') := by
  cases hw : call.work with
  | running work =>
    cases work with
    | intake i => exact h.turn_intake hw hmove
    | standIn s =>
      have hwork := h.serves.work
      rw [Submits, hw] at hwork
      cases hwork
  | absent | finished | broken =>
    rw [advanceWork, hw] at hmove
    cases hmove

/-- Whatever moves while the agent is not stopped, it takes one of the turns. -/
theorem turn (h : call.Pursues agent ended verdict d) (hrun : agent.stopped = false)
    {r : Agent × Backend × ResultCall} (hmove : call.Moves agent (.ofStore store) r) :
    Turn agent store ended verdict d call r := by
  cases hmove with
  | call hadvance =>
    cases hphase : call.phase with
    | reading => exact h.turn_reading hrun hphase hadvance
    | waiting token => exact h.turn_waiting hrun hphase hadvance
    | done result =>
      have := h.serves.order
      simp [InOrder, hphase] at this
  | work hwork =>
    rw [hrun] at hwork
    exact h.turn_work hwork

end Pursues

end ResultCall

end Sidecar
