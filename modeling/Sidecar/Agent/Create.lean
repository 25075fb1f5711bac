import Sidecar.Agent.Basic

/-!
# Creating tasks

A creation call reads its requests one at a time. It checks the token, then the order, and moves
what the request brings into queues that a submission reads beside it: headers into a bounded queue,
each payload into an unbounded queue of its own. When the last task is announced, the call ends the
queue of headers, waits for the submission and replies.

A submission that stops reading does not end the call. What it would have read is dropped, and its
failure is reported where its outcome is asked for, after the last task.

A `CreateCall` is the state of a call and its submission. `CreateCall.step` takes the call's next
step, or the submission's where the call has to wait.
-/

namespace Sidecar

/-- What a creation request asks for, once its unions are known to be set. -/
inductive CreateStep where
  | init (options : Option TaskOptions)
  | header (header : TaskHeader)
  | data (data : Bytes)
  | dataComplete
  | lastTask
deriving DecidableEq

namespace CreateStep

/-- What a request asks for, unless one of its unions is unset. -/
def ofKind? : Option CreateKind → Option CreateStep
  | some (.initRequest options) => some (.init options)
  | some (.initTask (some (.header h))) => some (.header h)
  | some (.initTask (some .lastTask)) => some .lastTask
  | some (.taskPayload (some (.data d))) => some (.data d)
  | some (.taskPayload (some .complete)) => some .dataComplete
  | none | some (.initTask none) | some (.taskPayload none) => none

/-- The event of the machine. -/
def event : CreateStep → CreationEvent
  | init _ => .initRequest
  | header _ => .header
  | data _ => .data
  | dataComplete => .dataComplete
  | lastTask => .lastTask

end CreateStep

/-- The outcome of a creation call. -/
abbrev CreateResult := Except CallError CreateReply

/-- What a call is doing: reading requests, waiting for a slot for a header whose payload has the
given queue, waiting for a slot to end the headers, waiting for the submission, or nothing any
more. -/
inductive CreatePhase where
  | reading
  | offering (payload : Nat)
  | closing
  | waiting
  | done (result : CreateResult)

/-- A creation call: its stream, the order of its requests, the queues and whether it still writes
them (`headersHeld`, `payload`), the ids that were announced, and its submission. -/
structure CreateCall where
  inbox : Inbox CreateRequest
  machine : Machine taskCreation
  queues : TaskQueues
  headersHeld : Bool
  payload : Option Nat
  ids : List String
  work : Work CreateWork (List CreatedTask)
  phase : CreatePhase

namespace CreateCall

/-- A call of which nothing is read. -/
def start : CreateCall :=
  ⟨.empty, .start, ⟨.unbounded, []⟩, false, none, [], .absent, .reading⟩

/-- The outcome, once there is one. -/
def result? (call : CreateCall) : Option CreateResult :=
  match call.phase with
  | .done result => some result
  | _ => none

/-- A call that is over. Its queues and its submission are gone with it. -/
def ended (result : CreateResult) : CreateCall := { start with phase := .done result }

/-! ## The call -/

/-- A header is dropped because nobody reads the headers any more. Nobody will read its payload
either. -/
def dropHeader (call : CreateCall) (payload : Nat) : CreateCall :=
  { call with
    queues := ⟨call.queues.headers.dropWriter, call.queues.payloads.modify payload .dropReader⟩
    headersHeld := false
    payload := some payload
    phase := .reading }

/-- Go on after a header was offered to the queue. -/
def offered (call : CreateCall) (payload : Nat) (outcome : Sent × Queue (TaskHeader × Nat)) :
    CreateCall :=
  let (sent, headers) := outcome
  let call := { call with queues := { call.queues with headers } }
  match sent with
  | .landed => { call with payload := some payload, phase := .reading }
  | .suspended => { call with phase := .offering payload }
  | .refused .cancelled => ended (.error .cancelled)
  | .refused _ => call.dropHeader payload

/-- Announce a task: its payload gets a queue, and its header is offered to the submission. -/
def announce (call : CreateCall) (stopped : Bool) (header : TaskHeader) : CreateCall :=
  let payload := call.queues.payloads.length
  let queues := { call.queues with payloads := call.queues.payloads ++ [Queue.unbounded] }
  let call := { call with queues, ids := call.ids ++ [header.id] }
  if call.headersHeld then
    call.offered payload (queues.headers.send stopped (.item (header, payload)))
  else call.dropHeader payload

/-- The call stops writing the present payload. -/
def releasePayload (call : CreateCall) (payload : Nat) (q : Queue Bytes) : CreateCall :=
  { call with
    queues := { call.queues with payloads := call.queues.payloads.set payload q.dropWriter }
    payload := none }

/-- Put an entry into the queue of the present payload. If nobody reads it any more, the rest of
the payload is dropped. -/
def feed (call : CreateCall) (stopped : Bool) (entry : Entry Bytes) : CreateCall :=
  match call.payload with
  | none => call
  | some payload =>
    match call.queues.payloads[payload]? with
    | none => call
    | some q =>
      match q.send stopped entry, entry with
      | (.refused .cancelled, _), _ => ended (.error .cancelled)
      | (.landed, q), .item _ =>
        { call with
          queues := { call.queues with payloads := call.queues.payloads.set payload q } }
      | (_, q), _ => call.releasePayload payload q

/-- Go on after the end was offered to the queue of headers. -/
def closed (call : CreateCall) (outcome : Sent × Queue (TaskHeader × Nat)) : CreateCall :=
  let (sent, headers) := outcome
  match sent with
  | .suspended => { call with queues := { call.queues with headers }, phase := .closing }
  | .refused .cancelled => ended (.error .cancelled)
  | _ =>
    { call with
      queues := { call.queues with headers := headers.dropWriter }
      headersHeld := false
      phase := .waiting }

/-- Do what a request asks for. -/
def perform (call : CreateCall) (agent : Agent) (backend : Backend) : CreateStep → CreateCall
  | .init options =>
    { call with
      queues := { call.queues with headers := .bounded agent.capacity }
      headersHeld := true
      work := .running (backend.create agent.identity options) }
  | .header header => call.announce agent.stopped header
  | .data data => call.feed agent.stopped (.item data)
  | .dataComplete => call.feed agent.stopped .close
  | .lastTask =>
    if call.headersHeld then call.closed (call.queues.headers.send agent.stopped .close)
    else { call with phase := .waiting }

/-- Take in a request: check its token, its unions and its place in the order. -/
def receive (call : CreateCall) (agent : Agent) (backend : Backend) (request : CreateRequest) :
    CreateCall :=
  match agent.token.refusal? request.token with
  | some refusal => ended (.ok (.error request.token refusal.message))
  | none =>
    match CreateStep.ofKind? request.kind with
    | none => ended (.error (.violation (.unknownCase request.caseName)))
    | some step =>
      match call.machine.fire step.event with
      | (.error refusal, _) =>
        ended (.error (.violation (.outOfOrder refusal)))
      | (.ok _, machine) => { call with machine }.perform agent backend step

/-- Reply, once the outcome of the submission is known. -/
def conclude (call : CreateCall) (agent : Agent) (outcome : Except Cause (List CreatedTask)) :
    Agent × CreateCall :=
  match outcome with
  | .ok created =>
    ({ agent with created := agent.created ++ created }, ended (.ok .successful))
  | .error _ => (agent, ended (.ok (.nonSuccessful call.ids)))

/-- The call's own next step, unless it has to wait. -/
def advance (call : CreateCall) (agent : Agent) (backend : Backend) :
    Option (Agent × CreateCall) :=
  match call.phase with
  | .done _ => none
  | .reading =>
    match call.inbox.take agent.stopped "CreateTask" with
    | .waiting => none
    | .error e => some (agent, ended (.error e))
    | .message request inbox stops =>
      let agent := if stops then agent.stop else agent
      some (agent, { call with inbox }.receive agent backend request)
  | .offering payload =>
    if agent.stopped then some (agent, ended (.error .cancelled))
    else
      match call.queues.headers.waiting with
      | none => none
      | some entry =>
        match call.queues.headers.resume agent.stopped entry with
        | (.suspended, _) => none
        | outcome => some (agent, call.offered payload outcome)
  | .closing =>
    if agent.stopped then some (agent, ended (.error .cancelled))
    else
      match call.queues.headers.waiting with
      | none => none
      | some entry =>
        match call.queues.headers.resume agent.stopped entry with
        | (.suspended, _) => none
        | outcome => some (agent, call.closed outcome)
  | .waiting =>
    match (call.work.background []).wait agent.stopped with
    | .cancelled => some (agent, ended (.error .cancelled))
    | .pending => none
    | .outcome outcome => some (call.conclude agent outcome)

/-! ## The submission -/

/-- The submission does not run any more. Its queues lose their reader. -/
def workDone (call : CreateCall) (work : Work CreateWork (List CreatedTask)) : CreateCall :=
  { call with queues := call.queues.dropReaders, work }

/-- The submission's next step, unless it has to wait. A batch that was read whole is stored. -/
def advanceWork (call : CreateCall) (stopped : Bool) (backend : Backend) :
    Option (Backend × CreateCall) :=
  match call.work with
  | .running work =>
    match work.step backend.store stopped call.queues with
    | (.waiting, _) => none
    | (.going work, queues) => some (backend, { call with queues, work := .running work })
    | (.broken, queues) => some (backend, { call with queues }.workDone .broken)
    | (.ended (.error cause), queues) =>
      some (backend, { call with queues }.workDone (.finished (.error cause)))
    | (.ended (.ok submitted), queues) =>
      some ({ backend with store := backend.store.addTasks submitted.tasks },
        { call with queues }.workDone (.finished (.ok submitted.created)))
  | .absent | .finished _ | .broken => none

/-- The next step of the call, or of its submission where the call waits. -/
def step (call : CreateCall) (agent : Agent) (backend : Backend) :
    Option (Agent × Backend × CreateCall) :=
  match call.advance agent backend with
  | some (agent, call) => some (agent, backend, call)
  | none =>
    match call.advanceWork agent.stopped backend with
    | some (backend, call) => some (agent, backend, call)
    | none => none

/-- More steps than there can be. A request takes at most a step of its own, one for the slot it
waits for, and two in the submission; an entry that is already in a queue takes two. -/
def budget (call : CreateCall) : Nat :=
  4 * call.inbox.arrivals.length + 2 * call.queues.entries + 12

end CreateCall

end Sidecar
