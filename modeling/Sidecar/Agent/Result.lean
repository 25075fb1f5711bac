import Sidecar.Agent.Basic

/-!
# Handing in a result

A result call takes one key and one payload. The payload moves into a queue that a submission reads
beside the call. Between the end of the data and the last message the queue is sealed: nothing more
is put in, but it is not ended either (`Writing.sealed`). Only the last message ends it, so that a
stream that breaks off before stores nothing.
-/

namespace Sidecar

/-- What a result request asks for, once its unions are known to be set. -/
inductive ResultStep where
  | key (key : String)
  | data (data : Bytes)
  | dataComplete
  | lastResult
deriving DecidableEq, Repr

namespace ResultStep

/-- What a request asks for, unless one of its unions is unset. -/
def ofKind? : Option ResultKind → Option ResultStep
  | some (.init (some (.key k))) => some (.key k)
  | some (.init (some .lastResult)) => some .lastResult
  | some (.data (some (.data d))) => some (.data d)
  | some (.data (some .complete)) => some .dataComplete
  | none | some (.init none) | some (.data none) => none

/-- The event of the machine. -/
def event : ResultStep → IngestionEvent
  | key _ => .initKey
  | data _ => .data
  | dataComplete => .dataComplete
  | lastResult => .lastResult

end ResultStep

/-- The outcome of a result call. -/
abbrev ResultResult := Except CallError ResultReply

/-- Does the call still write its queue? -/
inductive Writing where
  | notHeld
  | held
  | sealed
deriving DecidableEq, Repr

/-- What a call is doing: reading requests, waiting for the submission with the token to echo, or
nothing any more. -/
inductive ResultPhase where
  | reading
  | waiting (token : String)
  | done (result : ResultResult)

/-- A result call: its stream, the order of its requests, its queue, and its submission. -/
structure ResultCall where
  inbox : Inbox ResultRequest
  machine : Machine resultIngestion
  queue : Queue Bytes
  writing : Writing
  work : Work ResultWork Unit
  phase : ResultPhase

namespace ResultCall

/-- A call of which nothing is read. -/
def start : ResultCall := ⟨.empty, .start, .unbounded, .notHeld, .absent, .reading⟩

/-- The outcome, once there is one. -/
def result? (call : ResultCall) : Option ResultResult :=
  match call.phase with
  | .done result => some result
  | _ => none

/-- A call that is over. Its queue and its submission are gone with it. -/
def ended (result : ResultResult) : ResultCall := { start with phase := .done result }

/-! ## The call -/

/-- Put data into the queue. If nobody reads it any more, the rest of the data is dropped. -/
def feed (call : ResultCall) (stopped : Bool) (data : Bytes) : ResultCall :=
  if call.writing = .held then
    match call.queue.send stopped (.item data) with
    | (.refused .cancelled, _) => ended (.error .cancelled)
    | (.landed, queue) => { call with queue }
    | (_, queue) => { call with queue := queue.dropWriter, writing := .notHeld }
  else call

/-- End the queue, if it is sealed, and wait for the submission. -/
def close (call : ResultCall) (stopped : Bool) (token : String) : ResultCall :=
  if call.writing = .sealed then
    match call.queue.send stopped .close with
    | (.refused .cancelled, _) => ended (.error .cancelled)
    | (_, queue) =>
      { call with queue := queue.dropWriter, writing := .notHeld, phase := .waiting token }
  else { call with phase := .waiting token }

/-- Do what a request asks for. -/
def perform (call : ResultCall) (agent : Agent) (backend : Backend) (token : String) :
    ResultStep → ResultCall
  | .key key =>
    { call with
      queue := .unbounded
      writing := .held
      work := .running (backend.result agent.identity key) }
  | .data data => call.feed agent.stopped data
  | .dataComplete =>
    { call with writing := if call.writing = .held then .sealed else .notHeld }
  | .lastResult => call.close agent.stopped token

/-- Take in a request: check its token, its unions and its place in the order. -/
def receive (call : ResultCall) (agent : Agent) (backend : Backend) (request : ResultRequest) :
    ResultCall :=
  match agent.token.refusal? request.token with
  | some refusal => ended (.ok (.error request.token refusal.message))
  | none =>
    match ResultStep.ofKind? request.kind with
    | none => ended (.error (.violation (.unknownCase request.caseName)))
    | some step =>
      match call.machine.fire step.event with
      | (.error refusal, _) =>
        ended (.error (.violation (.outOfOrder refusal)))
      | (.ok _, machine) => { call with machine }.perform agent backend request.token step

/-- Reply, once the outcome of the submission is known. -/
def conclude (token : String) (outcome : Except Cause Unit) : ResultCall :=
  match outcome with
  | .ok () => ended (.ok .ok)
  | .error _ => ended (.ok (.error token resultFailed))

/-- The call's own next step, unless it has to wait. -/
def advance (call : ResultCall) (agent : Agent) (backend : Backend) :
    Option (Agent × ResultCall) :=
  match call.phase with
  | .done _ => none
  | .reading =>
    match call.inbox.take agent.stopped "SendResult" with
    | .waiting => none
    | .error e => some (agent, ended (.error e))
    | .message request inbox stops =>
      let agent := if stops then agent.stop else agent
      some (agent, { call with inbox }.receive agent backend request)
  | .waiting token =>
    match (call.work.background ()).wait agent.stopped with
    | .cancelled => some (agent, ended (.error .cancelled))
    | .pending => none
    | .outcome outcome => some (agent, conclude token outcome)

/-! ## The submission -/

/-- The submission does not run any more. Its queue loses its reader. -/
def workDone (call : ResultCall) (work : Work ResultWork Unit) : ResultCall :=
  { call with queue := call.queue.dropReader, work }

/-- The submission's next step, unless it has to wait. A result that was read whole is stored. -/
def advanceWork (call : ResultCall) (stopped : Bool) (backend : Backend) :
    Option (Backend × ResultCall) :=
  match call.work with
  | .running work =>
    match work.step backend.store stopped call.queue with
    | (.waiting, _) => none
    | (.going work, queue) => some (backend, { call with queue, work := .running work })
    | (.broken, queue) => some (backend, { call with queue }.workDone .broken)
    | (.ended (.error cause), queue) =>
      some (backend, { call with queue }.workDone (.finished (.error cause)))
    | (.ended (.ok stored), queue) =>
      let store := match stored with
        | some (key, result) => backend.store.addResult key result
        | none => backend.store
      some ({ backend with store }, { call with queue }.workDone (.finished (.ok ())))
  | .absent | .finished _ | .broken => none

/-- The next step of the call, or of its submission where the call waits. -/
def step (call : ResultCall) (agent : Agent) (backend : Backend) :
    Option (Agent × Backend × ResultCall) :=
  match call.advance agent backend with
  | some (agent, call) => some (agent, backend, call)
  | none =>
    match call.advanceWork agent.stopped backend with
    | some (backend, call) => some (agent, backend, call)
    | none => none

/-- More steps than there can be. A request takes at most a step of its own and one in the
submission. -/
def budget (call : ResultCall) : Nat :=
  2 * call.inbox.arrivals.length + call.queue.buffer.length + 8

end ResultCall

end Sidecar
