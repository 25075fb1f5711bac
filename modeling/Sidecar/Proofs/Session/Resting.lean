import Sidecar.Proofs.Session.Script
import Sidecar.Proofs.Session.Stopping

/-!
# Where a call that runs alone comes to rest

`Script.ending` is how a session ends whose only call plays a script: with the outcome of one pass
over the script's stream, or as cancelled where the agent was stopped before. Whatever order the
call and its submission move in, they come to rest there and nowhere else
(`Script.settles_eq_ending`), and so does the call that runs by itself (`Script.alone_eq_ending`).
-/

namespace Sidecar

namespace Session

/-- A session with a single call goes through what the call goes through, and rests where the call
does. -/
theorem Settles.alone {agent : Agent} {backend : Backend} {call : Call} {t : Session}
    {motive : Agent × Backend × Call → Prop} (h : (alone agent backend call).Settles t)
    (hstart : motive (agent, backend, call))
    (hmove : ∀ agent backend call r, motive (agent, backend, call) →
      call.Moves agent backend r → motive r) :
    ∃ agent' backend' call', t = Session.alone agent' backend' call' ∧
      motive (agent', backend', call') ∧ ∀ r, ¬ call'.Moves agent' backend' r := by
  obtain ⟨agent', backend', call', rfl, hreached⟩ := h.comes.induct
    (motive := fun t => ∃ agent' backend' call', t = Session.alone agent' backend' call' ∧
      motive (agent', backend', call'))
    ⟨agent, backend, call, rfl, hstart⟩ (by
      rintro t u ⟨agent', backend', call', rfl, hreached⟩ hu
      cases hu with
      | @call i name before after agent'' backend'' hbefore hstep =>
        cases i with
        | zero =>
          cases hbefore
          exact ⟨agent'', backend'', after, rfl, hmove _ _ _ _ hreached hstep⟩
        | succ i => cases hbefore)
  exact ⟨agent', backend', call', rfl, hreached, fun r hstep =>
    h.idle _ (.call (i := 0) rfl hstep)⟩

end Session

namespace Script

/-- The call that plays the script, when its whole stream has arrived. -/
def call : Script → Call
  | create items => .create (.onStream items)
  | result items => .result (.onStream items)

/-- A session that has just begun to play the script and nothing else. -/
def begun (agent : Agent) (store : Store) (script : Script) : Session :=
  Session.alone agent (.ofStore store) script.call

/-- The call, once it is over as cancelled. -/
def cancelled : Script → Call
  | create _ => .create (.ended (.error .cancelled))
  | result _ => .result (.ended (.error .cancelled))

/-- The call, once it is over with the outcome of one pass over its stream. -/
def answered (agent : Agent) (store : Store) : Script → Call
  | create items => .create (.ended (agent.createSequentially store items).1)
  | result items => .result (.ended (agent.sendSequentially store items).1)

/-- The session where the script is played to its end. -/
def ending (agent : Agent) (store : Store) (script : Script) : Session :=
  if agent.stopped then Session.alone agent (.ofStore store) script.cancelled
  else
    Session.alone { agent with created := agent.created ++ script.created agent store }
      (.ofStore (script.stored agent store)) (script.answered agent store)

variable {agent : Agent} {store : Store} {script : Script}

/-- Where the agent is stopped, a call that has just begun ends as cancelled and nothing else
happens. -/
theorem moves_call_of_stopped (hstop : agent.stopped = true) {r : Agent × Backend × Call}
    (hmove : script.call.Moves agent (.ofStore store) r) :
    r = (agent, .ofStore store, script.cancelled) := by
  cases script with
  | create items =>
    cases hmove with
    | create hmove =>
      cases hmove with
      | call hadvance =>
        rw [CreateCall.advance_stopped rfl hstop] at hadvance
        cases hadvance
        rfl
      | work hwork => cases hwork
  | result items =>
    cases hmove with
    | result hmove =>
      cases hmove with
      | call hadvance =>
        rw [ResultCall.advance_stopped rfl hstop] at hadvance
        cases hadvance
        rfl
      | work hwork => cases hwork

/-- Where the agent is stopped, a call that has just begun moves. -/
theorem exists_moves_call_of_stopped (hstop : agent.stopped = true) :
    ∃ r, script.call.Moves agent (.ofStore store) r := by
  cases script with
  | create items => exact ⟨_, .create (.call (CreateCall.advance_stopped rfl hstop _))⟩
  | result items => exact ⟨_, .result (.call (ResultCall.advance_stopped rfl hstop _))⟩

/-- A call that was cancelled does not move. -/
theorem not_moves_cancelled (backend : Backend) (r : Agent × Backend × Call) :
    ¬ script.cancelled.Moves agent backend r := by
  intro hmove
  cases script with
  | create items =>
    cases hmove with
    | create hmove => exact CreateCall.not_moves_ended _ _ _ _ hmove
  | result items =>
    cases hmove with
    | result hmove => exact ResultCall.not_moves_ended _ _ _ _ hmove

/-- Where the agent is stopped, the call ends as cancelled and nothing changes. -/
theorem settles_of_stopped (hstop : agent.stopped = true) {t : Session}
    (h : (script.begun agent store).Settles t) :
    t = Session.alone agent (.ofStore store) script.cancelled := by
  obtain ⟨agent', backend', call', rfl, hreached, hidle⟩ := h.alone
    (motive := fun r => r = (agent, .ofStore store, script.call) ∨
      r = (agent, .ofStore store, script.cancelled))
    (.inl rfl) (by
      rintro agent' backend' call' r (heq | heq) hmove
      · cases heq
        exact .inr (moves_call_of_stopped hstop hmove)
      · cases heq
        exact absurd hmove (not_moves_cancelled _ _))
  rcases hreached with heq | heq
  · cases heq
    obtain ⟨r, hmove⟩ : ∃ r, script.call.Moves agent (.ofStore store) r :=
      exists_moves_call_of_stopped hstop
    exact absurd hmove (hidle r)
  · cases heq
    rfl

/-- Where the agent is not stopped, the call ends with the outcome of one pass over its stream, and
leaves what it adds. -/
theorem settles_of_not_stopped (hrun : agent.stopped = false) {t : Session}
    (h : (script.begun agent store).Settles t) :
    t = Session.alone { agent with created := agent.created ++ script.created agent store }
      (.ofStore (script.stored agent store)) (script.answered agent store) := by
  cases script with
  | create items =>
    obtain ⟨agent', backend', call', rfl, ⟨c, rfl, hstage⟩, hidle⟩ := h.alone
      (motive := fun (a, b, call) => ∃ c, call = .create c ∧
        CreateCall.Stage agent store True true (scanRequests agent.token .idle .empty items)
          (a, b, c))
      ⟨_, rfl, CreateCall.stage_onStream agent store items⟩ (by
        rintro a b _ _ ⟨c, rfl, hstage⟩ hmove
        cases hmove with
        | create hmove => exact ⟨_, rfl, hstage.moves hrun hmove⟩)
    have hend := hstage.eq_createSequentially hrun fun r hmove => hidle _ (.create hmove)
    rw [createSequentially_eq] at hend
    cases hend
    rfl
  | result items =>
    obtain ⟨hcreated, hstored⟩ : _ ∧ (agent.sendSequentially store items).2 = _ :=
      sendSequentially_eq items
    rw [ResultCall.settles_eq_sendSequentially hrun h, hstored, hcreated, List.append_nil]
    rfl

/-- Whatever order the call and its submission move in, they come to rest at the end of the
script. -/
theorem settles_eq_ending {t : Session} (h : (script.begun agent store).Settles t) :
    t = script.ending agent store := by
  unfold ending
  split
  next hstop => exact settles_of_stopped hstop h
  next hrun => exact settles_of_not_stopped (Bool.eq_false_iff.2 hrun) h

/-- A call that runs by itself plays its script to the end. -/
theorem alone_eq_ending (agent : Agent) (store : Store) (script : Script) :
    script.alone agent store = script.ending agent store := by
  have hrun : script.alone agent store = (script.begun agent store).run := by
    cases script <;> rfl
  rw [hrun]
  exact settles_eq_ending (Session.settles_run _)

/-- At the end of the script there is an outcome. -/
theorem exists_outcome_ending (agent : Agent) (store : Store) (script : Script) :
    ∃ outcome, (script.ending agent store).outcome? = some outcome := by
  unfold ending
  split <;> cases script <;> exact ⟨_, rfl⟩

end Script

end Sidecar
