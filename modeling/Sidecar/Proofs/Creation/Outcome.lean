import Sidecar.Proofs.Creation.Effort
import Sidecar.Proofs.Creation.Progress

/-!
# The outcome of a creation call

A call that is left to itself goes through three stages: its stream is not decided, or its batch is
in the store and the reply is due, or it is over (`CreateCall.Stage`). Every move leads from a stage
to a stage (`CreateCall.Stage.moves`), so that a call that has come to rest either is over, with an
outcome its stream allows (`CreateCall.Outcome`), or waits for more of its stream.

Whether the store admits the batch can be told from the store as it was at the beginning only if
nobody else stores anything meanwhile. This is what `exclusive` stands for.
-/

namespace Sidecar

namespace CreateCall

/-- What a stream allows as the outcome of a call, with the agent and the backend it leaves. -/
inductive Outcome (agent : Agent) (store : Store) (exclusive : Prop) (ended : Bool)
    (verdict : CreateVerdict) : Agent × Backend × CreateResult → Prop where
  | decided {result : CreateResult} (h : verdict.Decides "CreateTask" ended result) :
      Outcome agent store exclusive ended verdict (agent, .ofStore store, result)
  | stored {b : Batch} (hverdict : verdict = .complete b) (h : exclusive → store.Admits b) :
      Outcome agent store exclusive ended verdict
        ({ agent with created := agent.created ++ b.created },
          .ofStore (store.addTasks (b.stored agent.identity)), .ok .successful)
  | refused {b : Batch} (hverdict : verdict = .complete b) (h : exclusive → ¬ store.Admits b) :
      Outcome agent store exclusive ended verdict
        (agent, .ofStore store, .ok (.nonSuccessful b.ids))

/-- How far a call has got that began with an agent and a store. -/
inductive Stage (agent : Agent) (store : Store) (exclusive : Prop) (ended : Bool)
    (verdict : CreateVerdict) : Agent × Backend × CreateCall → Prop where
  | underway {call : CreateCall} {b : Batch} (h : call.Pursues agent ended verdict b)
      (hstored : ¬ call.HasStored) (hchecked : exclusive → call.Checked store b) :
      Stage agent store exclusive ended verdict (agent, .ofStore store, call)
  | stored {call : CreateCall} {b : Batch} (h : call.Pursues agent ended verdict b)
      (hstored : call.HasStored) (hverdict : verdict = .complete b)
      (hadmits : exclusive → store.Admits b) :
      Stage agent store exclusive ended verdict
        (agent, .ofStore (store.addTasks (b.stored agent.identity)), call)
  | answered {agent' : Agent} {backend' : Backend} {result : CreateResult}
      (h : Outcome agent store exclusive ended verdict (agent', backend', result)) :
      Stage agent store exclusive ended verdict (agent', backend', CreateCall.ended result)

/-- A call that is over does not move. -/
theorem not_moves_ended (result : CreateResult) (agent : Agent) (backend : Backend)
    (r : Agent × Backend × CreateCall) : ¬ (ended result).Moves agent backend r := by
  intro hmove
  cases hmove with
  | call h => cases h
  | work h => cases h

namespace Stage

variable {agent : Agent} {store : Store} {exclusive : Prop} {ended : Bool} {verdict : CreateVerdict}

/-- Every move leads from a stage to a stage. -/
theorem moves (hrun : agent.stopped = false) {agent' : Agent} {backend' : Backend}
    {call' : CreateCall} (h : Stage agent store exclusive ended verdict (agent', backend', call'))
    {r : Agent × Backend × CreateCall} (hmove : call'.Moves agent' backend' r) :
    Stage agent store exclusive ended verdict r := by
  cases h with
  | @underway _ b hpursues hstored hchecked =>
    cases hpursues.turn hrun hmove with
    | goesOn hpursues' _ hafter hkept =>
      exact .underway hpursues' hafter fun hex => hkept (hchecked hex)
    | breaksOff hdecides _ => exact .answered (.decided hdecides)
    | stores hpursues' hverdict _ hafter hkept =>
      exact .stored hpursues' hafter hverdict fun hex => hkept (hchecked hex)
    | replies _ hbefore => exact absurd hbefore hstored
    | refuses hverdict _ hkept =>
      exact .answered (.refused hverdict fun hex => hkept (hchecked hex))
  | @stored _ b hpursues hstored hverdict hadmits =>
    cases hpursues.turn hrun hmove with
    | goesOn _ hbefore _ _ => exact absurd hstored hbefore
    | breaksOff _ hbefore => exact absurd hstored hbefore
    | stores _ _ hbefore _ _ => exact absurd hstored hbefore
    | replies _ _ => exact .answered (.stored hverdict hadmits)
    | refuses _ hbefore _ => exact absurd hstored hbefore
  | answered _ => exact absurd hmove (not_moves_ended _ _ _ _)

/-- At every stage the agent is not stopped, and the backend is a store. -/
theorem frame (hrun : agent.stopped = false) {agent' : Agent} {backend' : Backend}
    {call' : CreateCall} (h : Stage agent store exclusive ended verdict (agent', backend', call')) :
    agent'.stopped = false ∧ ∃ store', backend' = .ofStore store' := by
  cases h with
  | underway _ _ _ => exact ⟨hrun, store, rfl⟩
  | stored _ _ _ _ => exact ⟨hrun, _, rfl⟩
  | answered houtcome => cases houtcome <;> exact ⟨hrun, _, rfl⟩

/-- A call that cannot move is over, or waits for more of a stream that has not ended. -/
theorem rests (hrun : agent.stopped = false) {agent' : Agent} {backend' : Backend}
    {call' : CreateCall} (h : Stage agent store exclusive ended verdict (agent', backend', call'))
    (hidle : ∀ r, ¬ call'.Moves agent' backend' r) :
    (∃ result, call' = CreateCall.ended result ∧
      Outcome agent store exclusive ended verdict (agent', backend', result)) ∨
    (agent' = agent ∧ backend' = .ofStore store ∧ ended = false ∧ call'.Rests ∧
      ¬ call'.HasStored ∧ ∃ b, call'.Pursues agent ended verdict b) := by
  cases h with
  | underway hpursues hstored hchecked =>
    obtain ⟨hrests, hended, -⟩ := hpursues.rests hrun hidle
    exact .inr ⟨rfl, rfl, hended, hrests, hstored, _, hpursues⟩
  | stored hpursues hstored _ _ =>
    obtain ⟨-, -, -, hunstored, -⟩ := hpursues.rests hrun hidle
    exact absurd hstored hunstored
  | answered houtcome => exact .inl ⟨_, rfl, houtcome⟩

end Stage

end CreateCall

end Sidecar
