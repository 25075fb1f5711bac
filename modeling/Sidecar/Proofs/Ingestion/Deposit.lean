import Sidecar.Agent.Result
import Sidecar.Proofs.Verdict

/-!
# Deposits

A `Deposit` is what a result stream has asked for, read off its requests alone: the key and the
data that have come. `examineIngestion` is the verdict on the next element of a stream, and
`scanResults` the verdict on a whole stream. The token of the last message belongs to the verdict,
because a reply that reports a failure echoes it.
-/

namespace Sidecar

/-- A result that is being handed in. -/
structure Deposit where
  key : String
  payload : Bytes
deriving DecidableEq

namespace Deposit

/-- Nothing was handed in. -/
def empty : Deposit := ⟨"", []⟩

/-- Take in what one more request asks for. -/
def add (d : Deposit) : ResultStep → Deposit
  | .key key => { d with key }
  | .data data => { d with payload := d.payload ++ data }
  | .dataComplete | .lastResult => d

/-- The result as it is stored for the task an agent serves. -/
def stored (d : Deposit) (identity : Identity) : StoredResult :=
  ⟨identity.sessionId, identity.taskId, d.payload⟩

end Deposit

/-- The store can take the result: its payload is not longer than the limit, where zero stands for
no limit. -/
def Store.Accepts (store : Store) (d : Deposit) : Prop :=
  store.limit = 0 ∨ d.payload.length ≤ store.limit

instance (store : Store) (d : Deposit) : Decidable (store.Accepts d) :=
  inferInstanceAs (Decidable (store.limit = 0 ∨ d.payload.length ≤ store.limit))

/-- A result the store can take could be taken before its last request, too. -/
theorem Store.Accepts.of_add {store : Store} {d : Deposit} {step : ResultStep}
    (h : store.Accepts (d.add step)) : store.Accepts d := by
  cases step with
  | data data =>
    simp only [Accepts, Deposit.add, List.length_append] at h ⊢
    omega
  | key | dataComplete | lastResult => exact h

/-! ## The requests by themselves -/

/-- The verdict on a part of a result stream. A stream that is complete brings the token of its last
message. -/
abbrev ResultVerdict := Verdict IngestionState Deposit ResultResult (Deposit × String)

/-- The verdict on the next element of a stream that has handed in a deposit. -/
def examineIngestion (token : Token) (state : IngestionState) (d : Deposit)
    (item : Except Cause ResultRequest) : ResultVerdict :=
  match item with
  | .error cause => .decided (.error (.transport cause))
  | .ok request =>
    match token.refusal? request.token with
    | some refusal => .decided (.ok (.error request.token refusal.message))
    | none =>
      match ResultStep.ofKind? request.kind with
      | none => .decided (.error (.violation (.unknownCase request.caseName)))
      | some step =>
        match resultIngestion.next? state step.event, step with
        | none, _ =>
          .decided (.error (.violation (.outOfOrder ⟨"ResultIngestion",
            resultIngestion.stateName state, resultIngestion.eventName step.event⟩)))
        | some _, .lastResult => .complete (d, request.token)
        | some next, step => .undecided next (d.add step)

/-- A deposit is complete with a last message in its turn and with the right token, and with nothing
else. -/
theorem examineIngestion_eq_complete_iff {token : Token} {state : IngestionState} {d d' : Deposit}
    {item : Except Cause ResultRequest} {echo : String} :
    examineIngestion token state d item = .complete (d', echo) ↔
      d' = d ∧ state = .awaitingEnd ∧ ∃ request, item = .ok request ∧ echo = request.token ∧
        token.refusal? request.token = none ∧
        ResultStep.ofKind? request.kind = some .lastResult := by
  cases item with
  | error cause => simp [examineIngestion]
  | ok request =>
    cases htoken : token.refusal? request.token with
    | some refusal => simp [examineIngestion, htoken]
    | none =>
      cases hstep : ResultStep.ofKind? request.kind with
      | none => simp [examineIngestion, htoken, hstep]
      | some step =>
        cases state <;> cases step <;>
          simp [examineIngestion, htoken, hstep, resultIngestion, ResultStep.event, eq_comm]

/-- The verdict on a whole stream, or on what is left of it. -/
def scanResults (token : Token) (state : IngestionState) (d : Deposit)
    (items : List (Except Cause ResultRequest)) : ResultVerdict :=
  scanStream (examineIngestion token) state d items

end Sidecar
