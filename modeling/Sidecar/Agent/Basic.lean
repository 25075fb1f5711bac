import Sidecar.Message.Agent
import Sidecar.Protocol.Machine
import Sidecar.Pending
import Sidecar.Queue.Basic
import Sidecar.Submission.Backend

/-!
# An agent and its calls

An `Agent` serves the worker of one task. It knows the token the worker must present, and remembers
which tasks were created and not yet finalized. Once it is stopped, every call that is running and
every call that begins later ends as cancelled.

A streaming call ends with a reply or with a `CallError`. What concerns the worker's own doing, a
refused token or a failed submission, is answered in a reply; a `CallError` is for a stream that is
out of order, broken or stopped.
-/

namespace Sidecar

/-- Why a streaming call ended without a reply. -/
inductive CallError where
  | violation (cause : Violation)
  | transport (cause : Cause)
  | cancelled
deriving DecidableEq, Repr

/-- The text of the error. -/
def CallError.message : CallError → String
  | violation v => v.message
  | transport cause => "transport failed: " ++ cause.message
  | cancelled => "call cancelled"

/-- An agent: whom it serves, the secret, how many task headers are buffered ahead of a submission,
the tasks that await finalization, and whether it was stopped. -/
structure Agent where
  identity : Identity
  token : Token
  capacity : Nat
  created : List CreatedTask
  stopped : Bool
deriving DecidableEq

namespace Agent

/-- The number of task headers buffered ahead of a submission unless another one is asked for. -/
def defaultCapacity : Nat := 10

/-- An agent that has served no call. -/
def start (identity : Identity) (token : Token) (capacity : Nat) : Agent :=
  ⟨identity, token, capacity, [], false⟩

/-- Stop all calls. -/
def stop (agent : Agent) : Agent := { agent with stopped := true }

/-- Release the tasks created so far. A refused or failed request releases nothing. -/
def finalize (agent : Agent) (backend : Backend) (request : FinalizeRequest) :
    FinalizeReply × Agent × Backend :=
  match agent.token.refusal? request.token with
  | some refusal => (⟨request.token, .error refusal.message⟩, agent, backend)
  | none =>
    match backend.finalize agent.created with
    | (.ok count, backend) => (⟨"", .finalized count⟩, { agent with created := [] }, backend)
    | (.error cause, backend) => (⟨request.token, .error cause.message⟩, agent, backend)

end Agent

/-! ## What arrives on a stream -/

/-- An element of a request stream: a message, a message at whose arrival the agent is stopped, or
a failure of the transport. -/
inductive Arrival (μ : Type) where
  | message (message : μ)
  | stopping (message : μ)
  | broken (cause : Cause)

/-- A request stream: what has arrived and is not yet taken, and whether more can come. -/
structure Inbox (μ : Type) where
  arrivals : List (Arrival μ)
  ended : Bool

namespace Inbox

variable {μ : Type}

/-- Nothing has arrived. -/
def empty : Inbox μ := ⟨[], false⟩

/-- Something arrives. -/
def deliver (inbox : Inbox μ) (arrival : Arrival μ) : Inbox μ :=
  { inbox with arrivals := inbox.arrivals ++ [arrival] }

/-- The stream ends. -/
def finish (inbox : Inbox μ) : Inbox μ := { inbox with ended := true }

/-- What taking the next message comes to. -/
inductive Taken (μ : Type) where
  | waiting
  | message (message : μ) (rest : Inbox μ) (stops : Bool)
  | error (error : CallError)

/-- Take the next message of the named stream, unless the agent was stopped. -/
def take (inbox : Inbox μ) (stopped : Bool) (stream : String) : Taken μ :=
  if stopped then .error .cancelled
  else
    match inbox.arrivals with
    | .message m :: rest => .message m { inbox with arrivals := rest } false
    | .stopping m :: rest => .message m { inbox with arrivals := rest } true
    | .broken cause :: _ => .error (.transport cause)
    | [] => if inbox.ended then .error (.violation (.unexpectedEnd stream)) else .waiting

end Inbox

/-! ## A submission as its call sees it -/

/-- The submission of a call: not begun, or work in the background that is running, over with an
outcome, or broken down. -/
inductive Work (ω α : Type) where
  | absent
  | running (work : ω)
  | finished (outcome : Except Cause α)
  | broken

namespace Work

variable {ω α : Type}

/-- What the call waits for. A submission that was never begun has nothing to report. -/
def background (nothing : α) : Work ω α → Background α
  | absent => .ended (.ok nothing)
  | running _ => .running
  | finished outcome => .ended outcome
  | broken => .broken

end Work

/-- The text a worker is answered with when its result could not be stored. -/
def resultFailed : String := "Error while receiving results"

end Sidecar
