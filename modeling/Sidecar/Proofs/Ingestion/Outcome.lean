import Sidecar.Proofs.Ingestion.Turn

/-!
# The outcome of a result call

A result call rests where neither it nor its submission can move, and then it waits for more of its
stream (`ResultCall.Pursues.rests`). A call that is left to itself goes through three stages: its
stream is not decided, or its result is in the store and the reply is due, or it is over
(`ResultCall.Stage`). What other calls store meanwhile does not matter to it, since the limit on
payloads stays what it is.
-/

namespace Sidecar

/-- Whether a submission waits does not depend on what is stored. -/
theorem ResultIntake.step_waiting {i : ResultIntake} {store : Store} {stopped : Bool}
    {q : Queue Bytes} (h : (i.step store stopped q).1 = .waiting) (store' : Store) :
    (i.step store' stopped q).1 = .waiting := by
  unfold step at h ⊢
  have hwaits : (drain store stopped ("result " ++ i.key) i.received q).1 = .waiting := by
    simp only at h
    split at h
    · assumption
    · cases h
    · cases h
    · cases h
  simp only [drain_waiting_iff.2 (drain_waiting_iff.1 hwaits)]

namespace ResultCall

/-- Nothing moves by itself, whatever is stored and whatever was created, until the agent is
stopped. -/
def Rests (call : ResultCall) : Prop :=
  ∀ (agent : Agent) (store : Store), agent.stopped = false →
    ∀ r, ¬ call.Moves agent (.ofStore store) r

/-- What a stream allows as the outcome of a call, with the agent and the backend it leaves. -/
inductive Outcome (agent : Agent) (store : Store) (ended : Bool) (verdict : ResultVerdict) :
    Agent × Backend × ResultResult → Prop where
  | decided {result : ResultResult} (h : verdict.Decides "SendResult" ended result) :
      Outcome agent store ended verdict (agent, .ofStore store, result)
  | stored {d : Deposit} {token : String} (hverdict : verdict = .complete (d, token))
      (h : store.Accepts d) :
      Outcome agent store ended verdict
        (agent, .ofStore (store.addResult d.key (d.stored agent.identity)), .ok .ok)
  | refused {d : Deposit} {token : String} (hverdict : verdict = .complete (d, token))
      (h : ¬ store.Accepts d) :
      Outcome agent store ended verdict
        (agent, .ofStore store, .ok (.error token resultFailed))

/-- How far a call has got that began with an agent and a store. -/
inductive Stage (agent : Agent) (store : Store) (ended : Bool) (verdict : ResultVerdict) :
    Agent × Backend × ResultCall → Prop where
  | underway {call : ResultCall} {d : Deposit} (h : call.Pursues agent ended verdict d)
      (hstored : ¬ call.HasStored) (hchecked : call.Checked store d) :
      Stage agent store ended verdict (agent, .ofStore store, call)
  | stored {call : ResultCall} {d : Deposit} {token : String}
      (h : call.Pursues agent ended verdict d) (hstored : call.HasStored)
      (hverdict : verdict = .complete (d, token)) (hfits : store.Accepts d) :
      Stage agent store ended verdict
        (agent, .ofStore (store.addResult d.key (d.stored agent.identity)), call)
  | answered {agent' : Agent} {backend' : Backend} {result : ResultResult}
      (h : Outcome agent store ended verdict (agent', backend', result)) :
      Stage agent store ended verdict (agent', backend', ResultCall.ended result)

variable {call : ResultCall} {agent : Agent} {store : Store} {ended : Bool}
  {verdict : ResultVerdict} {d : Deposit}

/-- The call waits: for more of its stream, or for the outcome of its submission. -/
def Waits (call : ResultCall) (stopped : Bool) : Prop :=
  match call.phase with
  | .reading => call.inbox.take stopped "SendResult" = .waiting
  | .waiting _ => (call.work.background ()).wait stopped = .pending
  | .done _ => True

/-- A call does not move exactly if it waits. This depends on neither the store nor the agent,
unless that is stopped. -/
theorem advance_eq_none_iff {backend : Backend} :
    call.advance agent backend = none ↔ call.Waits agent.stopped := by
  unfold advance Waits
  cases call.phase with
  | done => simp
  | reading => cases call.inbox.take agent.stopped "SendResult" <;> simp
  | waiting => cases (call.work.background ()).wait agent.stopped <;> simp

/-- Whether the submission waits does not depend on what is stored. -/
theorem advanceWork_eq_none {stopped : Bool}
    (h : call.advanceWork stopped (.ofStore store) = none)
    (hwork : ∀ s, call.work ≠ .running (.standIn s)) (store' : Store) :
    call.advanceWork stopped (.ofStore store') = none := by
  unfold advanceWork at h ⊢
  cases hw : call.work with
  | running work =>
    cases work with
    | standIn s => exact absurd hw (hwork s)
    | intake i =>
      simp only [hw, ResultWork.step, Backend.ofStore] at h ⊢
      have hwaits : (i.step store stopped call.queue).1 = .waiting := by
        generalize i.step store stopped call.queue = progress at h
        obtain ⟨p, q⟩ := progress
        cases p with
        | waiting => rfl
        | going i' => cases h
        | broken => cases h
        | ended outcome => cases outcome <;> cases h
      rw [ResultIntake.step_waiting hwaits store']
      rfl
  | absent | finished outcome | broken => rfl

theorem advance_eq_none_of_not_moves {backend : Backend} (h : ∀ r, ¬ call.Moves agent backend r) :
    call.advance agent backend = none := by
  cases hadvance : call.advance agent backend with
  | none => rfl
  | some r => exact absurd (.call hadvance) (h _)

theorem advanceWork_eq_none_of_not_moves {backend : Backend}
    (h : ∀ r, ¬ call.Moves agent backend r) : call.advanceWork agent.stopped backend = none := by
  cases hadvance : call.advanceWork agent.stopped backend with
  | none => rfl
  | some r => exact absurd (.work hadvance) (h _)

/-- What does not move for one agent and one store moves for none. -/
theorem rests_of_not_moves (hrun : agent.stopped = false)
    (hwork : ∀ s, call.work ≠ .running (.standIn s))
    (h : ∀ r, ¬ call.Moves agent (.ofStore store) r) : call.Rests := by
  have hadvance := advance_eq_none_of_not_moves h
  have hadvanceWork := advanceWork_eq_none_of_not_moves h
  intro agent' store' hrun' r hmove
  cases hmove with
  | call hmove =>
    rw [advance_eq_none_iff, hrun, ← hrun'] at hadvance
    rw [advance_eq_none_iff.2 hadvance] at hmove
    cases hmove
  | work hmove =>
    rw [hrun', ← hrun, advanceWork_eq_none hadvanceWork hwork] at hmove
    cases hmove

/-- A call that waits for its submission does not find it waiting too: the end of the queue has
landed. -/
theorem Pursues.not_pending (h : call.Pursues agent ended verdict d) {token : String}
    (hphase : call.phase = .waiting token)
    (hidle : call.advanceWork false (.ofStore store) = none) :
    (call.work.background ()).wait false ≠ .pending := by
  intro hpending
  have horder := h.serves.order
  have hwork := h.serves.work
  simp only [InOrder, hphase] at horder
  unfold Submits at hwork
  split at hwork
  next => simp [horder] at hwork
  next i hi =>
    simp only [advanceWork, hi, ResultWork.step, Backend.ofStore] at hidle
    rcases step_intake hwork.2.2 store with ⟨i', q', hstep, -⟩ | ⟨cause, q', hstep, -⟩ |
      ⟨-, -, q', hstep⟩ | ⟨hopen, -⟩
    · rw [hstep] at hidle
      cases hidle
    · rw [hstep] at hidle
      cases hidle
    · rw [hstep] at hidle
      cases hidle
    · simp [horder] at hopen
  next => cases hwork
  next hw =>
    rw [hw] at hpending
    cases hpending
  next cause hw =>
    rw [hw] at hpending
    cases hpending
  next => cases hwork

/-- A call that cannot move has read all there is, and waits for more of its stream. -/
theorem Pursues.rests (h : call.Pursues agent ended verdict d) (hrun : agent.stopped = false)
    (hidle : ∀ r, ¬ call.Moves agent (.ofStore store) r) :
    call.Rests ∧ ended = false ∧ call.inbox = ⟨[], false⟩ ∧ ¬ call.HasStored ∧
      call.phase = .reading ∧ verdict = .undecided call.machine.state d := by
  have horder := h.serves.order
  have hrests : call.Rests := by
    refine rests_of_not_moves hrun (?_) hidle
    intro s hs
    have hwork := h.serves.work
    rw [Submits, hs] at hwork
    exact hwork
  have hwaits := advance_eq_none_iff.1 (advance_eq_none_of_not_moves hidle)
  have hworkWaits := advanceWork_eq_none_of_not_moves hidle
  rw [hrun] at hwaits hworkWaits
  cases hphase : call.phase with
  | reading =>
    simp only [Waits, hphase] at hwaits
    obtain ⟨items, hinbox, hverdict⟩ := h.stream
    have hempty := Inbox.eq_empty_of_take_waiting hwaits
    obtain ⟨hitems, rfl⟩ := Inbox.mk.inj (hinbox.symm.trans hempty)
    obtain rfl := List.map_eq_nil_iff.1 hitems
    simp only [prospect, hphase] at hverdict
    exact ⟨hrests, rfl, hempty, h.serves.not_hasStored hphase, rfl, hverdict.symm⟩
  | waiting token =>
    simp only [Waits, hphase] at hwaits
    exact absurd hwaits (h.not_pending hphase hworkWaits)
  | done result => simp [InOrder, hphase] at horder

namespace Stage

/-- Every move leads from a stage to a stage. -/
theorem moves (hrun : agent.stopped = false) {agent' : Agent} {backend' : Backend}
    {call' : ResultCall} (h : Stage agent store ended verdict (agent', backend', call'))
    {r : Agent × Backend × ResultCall} (hmove : call'.Moves agent' backend' r) :
    Stage agent store ended verdict r := by
  cases h with
  | @underway _ d hpursues hstored hchecked =>
    cases hpursues.turn hrun hmove with
    | goesOn hpursues' _ hafter hkept => exact .underway hpursues' hafter (hkept hchecked)
    | breaksOff hdecides _ => exact .answered (.decided hdecides)
    | stores hpursues' hverdict _ hafter hkept =>
      exact .stored hpursues' hafter hverdict (hkept hchecked)
    | replies _ hbefore => exact absurd hbefore hstored
    | refuses hverdict _ hkept => exact .answered (.refused hverdict (hkept hchecked))
  | @stored _ d token hpursues hstored hverdict hfits =>
    cases hpursues.turn hrun hmove with
    | goesOn _ hbefore _ _ => exact absurd hstored hbefore
    | breaksOff _ hbefore => exact absurd hstored hbefore
    | stores _ _ hbefore _ _ => exact absurd hstored hbefore
    | replies _ _ => exact .answered (.stored hverdict hfits)
    | refuses _ hbefore _ => exact absurd hstored hbefore
  | answered _ => exact absurd hmove (not_moves_ended _ _ _ _)

/-- At every stage the agent is not stopped, and the backend is a store. -/
theorem frame (hrun : agent.stopped = false) {agent' : Agent} {backend' : Backend}
    {call' : ResultCall} (h : Stage agent store ended verdict (agent', backend', call')) :
    agent'.stopped = false ∧ ∃ store', backend' = .ofStore store' := by
  cases h with
  | underway _ _ _ => exact ⟨hrun, store, rfl⟩
  | stored _ _ _ _ => exact ⟨hrun, _, rfl⟩
  | answered houtcome => cases houtcome <;> exact ⟨hrun, _, rfl⟩

/-- A call that cannot move is over, or waits for more of a stream that has not ended. -/
theorem rests (hrun : agent.stopped = false) {agent' : Agent} {backend' : Backend}
    {call' : ResultCall} (h : Stage agent store ended verdict (agent', backend', call'))
    (hidle : ∀ r, ¬ call'.Moves agent' backend' r) :
    (∃ result, call' = ResultCall.ended result ∧
      Outcome agent store ended verdict (agent', backend', result)) ∨
    (agent' = agent ∧ backend' = .ofStore store ∧ ended = false ∧ call'.Rests ∧
      ¬ call'.HasStored ∧ ∃ d, call'.Pursues agent ended verdict d ∧ call'.Checked store d) := by
  cases h with
  | underway hpursues hstored hchecked =>
    obtain ⟨hrests, hended, -⟩ := hpursues.rests hrun hidle
    exact .inr ⟨rfl, rfl, hended, hrests, hstored, _, hpursues, hchecked⟩
  | stored hpursues hstored _ _ =>
    obtain ⟨-, -, -, hunstored, -⟩ := hpursues.rests hrun hidle
    exact absurd hstored hunstored
  | answered houtcome => exact .inl ⟨_, rfl, houtcome⟩

end Stage

end ResultCall

end Sidecar
