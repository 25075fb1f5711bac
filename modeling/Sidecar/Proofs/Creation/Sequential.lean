import Sidecar.Proofs.Creation.Outcome
import Sidecar.Proofs.Session.Progress

/-!
# A creation call is one pass over its stream

`Agent.createSequentially` is what a creation call comes to when nothing else happens: it reads the
stream once, element by element, and has neither queues nor a submission beside it. The first
element that decides the call ends it; if the last task comes first, the batch is stored whole or
not at all.

A call that runs alone agrees with it, and not only in the order in which a session takes its steps:
every schedule of the call and its submission ends, and every schedule ends with the same outcome
and leaves the same agent and the same store (`CreateCall.createTask_eq_createSequentially`).
-/

namespace Sidecar

/-- The outcome of a creation call whose stream is read in one pass, with the agent and the store it
leaves. -/
def Agent.createSequentially (agent : Agent) (store : Store)
    (items : List (Except Cause CreateRequest)) : CreateResult × Agent × Store :=
  match scanRequests agent.token .idle .empty items with
  | .undecided _ _ => (.error (.violation (.unexpectedEnd "CreateTask")), agent, store)
  | .decided result => (result, agent, store)
  | .complete b =>
    if store.Admits b then
      (.ok .successful, { agent with created := agent.created ++ b.created },
        store.addTasks (b.stored agent.identity))
    else (.ok (.nonSuccessful b.ids), agent, store)

namespace CreateCall

/-- So many moves, of the call and of its submission in any order, lead from one state to
another. -/
inductive Schedule (s : Agent × Backend × CreateCall) :
    Nat → Agent × Backend × CreateCall → Prop where
  | refl : Schedule s 0 s
  | tail {n : Nat} {agent : Agent} {backend : Backend} {call : CreateCall}
      {r : Agent × Backend × CreateCall} (h : Schedule s n (agent, backend, call))
      (hmove : call.Moves agent backend r) : Schedule s (n + 1) r

/-- A call whose whole stream has arrived. -/
def onStream (items : List (Except Cause CreateRequest)) : CreateCall :=
  { start with inbox := ⟨items.map .ofItem, true⟩ }

variable {agent : Agent} {store : Store}

/-- A call of which nothing is read pursues what its stream comes to. -/
theorem pursues_start (agent : Agent) (items : List (Except Cause CreateRequest)) (ended : Bool) :
    ({ start with inbox := ⟨items.map .ofItem, ended⟩ } : CreateCall).Pursues agent ended
      (scanRequests agent.token .idle .empty items) .empty := by
  refine ⟨serves_start agent.identity _, items, rfl, ?_⟩
  rw [prospect, if_neg (by simp [start, Machine.start, taskCreation])]
  rfl

/-- A call that begins alone is under way. -/
theorem stage_onStream (agent : Agent) (store : Store) (items : List (Except Cause CreateRequest)) :
    Stage agent store True true (scanRequests agent.token .idle .empty items)
      (agent, .ofStore store, onStream items) :=
  .underway (pursues_start agent items true) (by simp [HasStored, onStream, start])
    fun _ => by simp [Checked, onStream, start]

/-- A move leaves less to do. -/
theorem effort_lt_of_moves {call : CreateCall} {backend : Backend}
    {r : Agent × Backend × CreateCall} (hmove : call.Moves agent backend r) :
    r.2.2.effort < call.effort := by
  cases hmove with
  | call h => exact effort_lt_of_advance h
  | work h => exact effort_lt_of_advanceWork h

/-- What every move keeps is kept by every schedule, and no schedule is longer than what there is
to be done. -/
theorem Schedule.induct {s r : Agent × Backend × CreateCall} {n : Nat}
    {motive : Agent × Backend × CreateCall → Prop} (hs : Schedule s n r) (h : motive s)
    (hmove : ∀ agent backend call r, motive (agent, backend, call) →
      call.Moves agent backend r → motive r) :
    motive r ∧ r.2.2.effort + n ≤ s.2.2.effort := by
  induction hs with
  | refl => exact ⟨h, Nat.le_refl _⟩
  | tail _ hstep ih =>
    refine ⟨hmove _ _ _ _ ih.1 hstep, ?_⟩
    have hlt := effort_lt_of_moves hstep
    have hle := ih.2
    simp only at hle
    omega

/-- An outcome of a call that runs alone on a whole stream is the sequential one. -/
theorem Outcome.eq_createSequentially {items : List (Except Cause CreateRequest)}
    {agent' : Agent} {backend' : Backend} {result : CreateResult}
    (h : Outcome agent store True true (scanRequests agent.token .idle .empty items)
      (agent', backend', result)) :
    (agent', backend', result) =
      ((agent.createSequentially store items).2.1,
        .ofStore (agent.createSequentially store items).2.2,
        (agent.createSequentially store items).1) := by
  unfold Agent.createSequentially
  cases h with
  | decided hdecides =>
    revert hdecides
    generalize scanRequests agent.token .idle .empty items = verdict
    rintro (_ | _) <;> rfl
  | stored hverdict hadmits =>
    rw [hverdict]
    simp [hadmits trivial]
  | refused hverdict hadmits =>
    rw [hverdict]
    simp [hadmits trivial]

/-- Where a call that runs alone on a whole stream cannot move, it is over with the sequential
outcome. -/
theorem Stage.eq_createSequentially (hrun : agent.stopped = false)
    {items : List (Except Cause CreateRequest)} {agent' : Agent} {backend' : Backend}
    {call' : CreateCall}
    (h : Stage agent store True true (scanRequests agent.token .idle .empty items)
      (agent', backend', call'))
    (hidle : ∀ r, ¬ call'.Moves agent' backend' r) :
    (agent', backend', call') =
      ((agent.createSequentially store items).2.1,
        .ofStore (agent.createSequentially store items).2.2,
        CreateCall.ended (agent.createSequentially store items).1) := by
  rcases h.rests hrun hidle with ⟨result, rfl, houtcome⟩ | ⟨-, -, hended, -⟩
  · have := houtcome.eq_createSequentially
    simp only [Prod.mk.injEq] at this ⊢
    exact ⟨this.1, this.2.1, by rw [this.2.2]⟩
  · cases hended

/-- A session with a single call steps as the call does. -/
theorem step_alone (agent : Agent) (backend : Backend) (call : CreateCall) :
    (Session.alone agent backend (.create call)).step =
      (call.step agent backend).map fun (a, b, c) => Session.alone a b (.create c) := by
  simp only [Session.step, Session.alone, Session.stepCalls, Call.step]
  cases call.step agent backend <;> rfl

/-- A session with a single call comes to where the call cannot move, on one of its schedules. -/
theorem exists_schedule_run (agent : Agent) (backend : Backend) (call : CreateCall) :
    ∃ n agent' backend' call', Schedule (agent, backend, call) n (agent', backend', call') ∧
      (Session.alone agent backend (.create call)).run =
        Session.alone agent' backend' (.create call') ∧
      ∀ r, ¬ call'.Moves agent' backend' r := by
  have hrun := Session.run_induction
    (motive := fun s => ∃ n agent' backend' call',
      Schedule (agent, backend, call) n (agent', backend', call') ∧
        s = Session.alone agent' backend' (.create call'))
    (fun s s' hstep h => by
      obtain ⟨n, agent₁, backend₁, call₁, hschedule, rfl⟩ := h
      rw [step_alone, Option.map_eq_some_iff] at hstep
      obtain ⟨⟨agent₂, backend₂, call₂⟩, hstep, rfl⟩ := hstep
      exact ⟨n + 1, agent₂, backend₂, call₂, hschedule.tail (moves_of_step hstep), rfl⟩)
    (s := Session.alone agent backend (.create call)) ⟨0, agent, backend, call, .refl, rfl⟩
  obtain ⟨n, agent', backend', call', hschedule, heq⟩ := hrun
  have hidle := Session.step_run (Session.alone agent backend (.create call))
  rw [heq, step_alone, Option.map_eq_none_iff] at hidle
  exact ⟨n, agent', backend', call', hschedule, heq, not_moves_of_step_eq_none hidle⟩

/-- A creation call that runs alone over a store has the outcome of one pass over its stream, and
leaves the agent and the store that one pass leaves. No schedule of the call and its submission goes
on for ever, and every one that can go no further ends there. -/
theorem createTask_eq_createSequentially (identity : Identity) (token : Token) (capacity : Nat)
    (created : List CreatedTask) (store : Store) (items : List (Except Cause CreateRequest)) :
    let agent : Agent := ⟨identity, token, capacity, created, false⟩
    let (result, agent', store') := agent.createSequentially store items
    let session := agent.createTask (.ofStore store) (items.map .ofItem)
    (session.outcome? = some (.create result) ∧ session.agent = agent' ∧
      session.backend = .ofStore store') ∧
    ∀ n last, Schedule (agent, .ofStore store, onStream items) n last →
      n ≤ (onStream items).budget ∧
      ((∀ r, ¬ last.2.2.Moves last.1 last.2.1 r) →
        last = (agent', .ofStore store', CreateCall.ended result)) := by
  intro agent
  have hall : ∀ n last, Schedule (agent, .ofStore store, onStream items) n last →
      Stage agent store True true (scanRequests agent.token .idle .empty items) last ∧
        last.2.2.effort + n ≤ (onStream items).effort := fun n last h =>
    h.induct (stage_onStream agent store items) fun _ _ _ _ hstage hmove => hstage.moves rfl hmove
  obtain ⟨n, agent₁, backend₁, call₁, hschedule, hrun, hidle⟩ :=
    exists_schedule_run agent (.ofStore store) (onStream items)
  have hend := (hall _ _ hschedule).1.eq_createSequentially rfl hidle
  simp only [Prod.mk.injEq] at hend
  obtain ⟨rfl, rfl, rfl⟩ := hend
  refine ⟨?_, fun n last h => ⟨?_, ?_⟩⟩
  · unfold Agent.createTask
    rw [show ({ start with inbox := ⟨items.map .ofItem, true⟩ } : CreateCall) = onStream items
      from rfl, hrun]
    exact ⟨rfl, rfl, rfl⟩
  · have := (hall n last h).2
    have := (onStream items).effort_le_budget
    omega
  · intro hidle'
    exact (hall n last h).1.eq_createSequentially rfl hidle'

end CreateCall

end Sidecar
