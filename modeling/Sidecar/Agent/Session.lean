import Sidecar.Agent.Create
import Sidecar.Agent.Result
import Sidecar.Settle

/-!
# Calls side by side

A `Session` is an agent, its backend, and the calls that are open at the same time, each under a
name. The calls share nothing but the agent's list of created tasks, its stop, and the store. After
something happens to the session, it runs (`Session.run`) until every call waits or is over: the
first call that can take a step takes it.
-/

namespace Sidecar

/-- A call of either kind. -/
inductive Call where
  | create (call : CreateCall)
  | result (call : ResultCall)

/-- The outcome of a call of either kind. -/
inductive CallResult where
  | create (result : CreateResult)
  | result (result : ResultResult)

namespace Call

/-- The next step. -/
def step (call : Call) (agent : Agent) (backend : Backend) : Option (Agent × Backend × Call) :=
  match call with
  | create c => (c.step agent backend).map fun (a, b, c) => (a, b, create c)
  | result c => (c.step agent backend).map fun (a, b, c) => (a, b, result c)

/-- More steps than there can be. -/
def budget : Call → Nat
  | create c => c.budget
  | result c => c.budget

/-- The outcome, once there is one. -/
def result? : Call → Option CallResult
  | create c => c.result?.map .create
  | result c => c.result?.map .result

/-- Does the call still take what arrives? -/
def isOpen : Call → Bool
  | create c => c.result?.isNone && !c.inbox.ended
  | result c => c.result?.isNone && !c.inbox.ended

/-- The stream of the call ends. -/
def finish : Call → Call
  | create c => create { c with inbox := c.inbox.finish }
  | result c => result { c with inbox := c.inbox.finish }

end Call

/-- An agent, its backend, and the calls that are open or over. -/
structure Session where
  agent : Agent
  backend : Backend
  calls : List (String × Call)

namespace Session

/-- A session without calls. -/
def start (agent : Agent) (backend : Backend) : Session := ⟨agent, backend, []⟩

/-- The first call that can take a step takes it. -/
def stepCalls (agent : Agent) (backend : Backend) :
    List (String × Call) → Option (Agent × Backend × List (String × Call))
  | [] => none
  | (name, call) :: rest =>
    match call.step agent backend with
    | some (agent, backend, call) => some (agent, backend, (name, call) :: rest)
    | none =>
      (stepCalls agent backend rest).map fun (agent, backend, rest) =>
        (agent, backend, (name, call) :: rest)

/-- The next step of the session. -/
def step (s : Session) : Option Session :=
  (stepCalls s.agent s.backend s.calls).map fun (agent, backend, calls) => ⟨agent, backend, calls⟩

/-- More steps than there can be. -/
def budget (s : Session) : Nat := s.calls.foldr (fun c n => c.2.budget + n) 0

/-- Let all calls proceed until they wait or are over. -/
def run (s : Session) : Session := settle step s.budget s

/-- A call by its name. -/
def call? (s : Session) (name : String) : Option Call := s.calls.lookup name

/-- Change a call. -/
def modifyCall (s : Session) (name : String) (change : Call → Call) : Session :=
  { s with calls := s.calls.map fun (n, c) => (n, if n = name then change c else c) }

/-- Forget a call, and with it everything that belongs to it. -/
def abort (s : Session) (name : String) : Session :=
  { s with calls := s.calls.filter fun c => c.1 ≠ name }

/-- Begin a call. A call of that name that is still open is dropped. -/
def openCall (s : Session) (name : String) (call : Call) : Session :=
  let s := s.abort name
  { s with calls := s.calls ++ [(name, call)] }

/-- Deliver a request to a creation call. Nothing is delivered to other calls. -/
def deliverCreate (s : Session) (name : String) (arrival : Arrival CreateRequest) : Session :=
  s.modifyCall name fun
    | .create c => .create { c with inbox := c.inbox.deliver arrival }
    | call => call

/-- Deliver a request to a result call. Nothing is delivered to other calls. -/
def deliverResult (s : Session) (name : String) (arrival : Arrival ResultRequest) : Session :=
  s.modifyCall name fun
    | .result c => .result { c with inbox := c.inbox.deliver arrival }
    | call => call

/-- The stream of a call ends. -/
def finishCall (s : Session) (name : String) : Session := s.modifyCall name Call.finish

/-- The agent is stopped. -/
def stop (s : Session) : Session := { s with agent := s.agent.stop }

/-- A name that no call has. -/
def unusedName (s : Session) : String := String.join (s.calls.map Prod.fst) ++ "."

/-- Serve one more call beside the others, as far as it goes, and forget it. -/
def serve (s : Session) (call : Call) : Option CallResult × Session :=
  let name := s.unusedName
  let s := (s.openCall name call).run
  (s.call? name >>= Call.result?, s.abort name)

/-- The outcomes that are there now and were not there before. -/
def newResults (s before : Session) : List (String × CallResult) :=
  s.calls.filterMap fun (name, call) =>
    if (before.call? name >>= Call.result?).isSome then none
    else call.result?.map fun result => (name, result)

/-- A session with a single call. -/
def alone (agent : Agent) (backend : Backend) (call : Call) : Session :=
  ⟨agent, backend, [("", call)]⟩

/-- The outcome of a session's single call, once there is one. -/
def outcome? (s : Session) : Option CallResult :=
  match s.calls with
  | [(_, call)] => call.result?
  | _ => none

end Session

namespace Agent

/-- Serve a whole creation call and nothing else: all its requests arrive, and then the stream
ends. -/
def createTask (agent : Agent) (backend : Backend) (requests : List (Arrival CreateRequest)) :
    Session :=
  (Session.alone agent backend (.create { CreateCall.start with inbox := ⟨requests, true⟩ })).run

/-- Serve a whole result call and nothing else: all its requests arrive, and then the stream
ends. -/
def sendResult (agent : Agent) (backend : Backend) (requests : List (Arrival ResultRequest)) :
    Session :=
  (Session.alone agent backend (.result { ResultCall.start with inbox := ⟨requests, true⟩ })).run

end Agent

end Sidecar
