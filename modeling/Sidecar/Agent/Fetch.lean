import Sidecar.Agent.Basic
import Sidecar.Resource.Library

/-!
# Fetching data

A resource is answered with the key and its first buffer, then its other buffers, then a bare mark
of completion. Where there is nothing to begin with, because the key is unknown, the lookup fails
or the resource has no data, the answer is a single reply that names the key and the reason. A
failure later on ends the replies in place of the mark.

The two other kinds of data a worker may ask for are not supported, and say so.
-/

namespace Sidecar

namespace Fetch

/-- The text for a key that is unknown. -/
def keyNotFound : String := "Key not found"

/-- The text for common data. -/
def commonUnsupported : String := "Common data are not supported yet"

/-- The text for direct data. -/
def directUnsupported : String := "Direct data are not supported yet"

/-- The replies after the first one. -/
def continuation : Buffers → List FetchReply
  | [] => [.complete]
  | .ok data :: rest => .data data :: continuation rest
  | .error e :: _ => [.error "" e.message]

/-- The replies that bring a resource. -/
def replies (key : String) : Buffers → List FetchReply
  | [] => [.initError key Violation.noData.message]
  | .ok data :: rest => .initData key data :: continuation rest
  | .error e :: _ => [.initError key e.message]

/-- The replies to a request for a resource, as long as the agent is not stopped, and whether a stop
cuts them short. -/
def answer (agent : Agent) (library : Library) (request : FetchRequest) : List FetchReply × Bool :=
  match agent.token.refusal? request.token with
  | some refusal => ([.error request.token refusal.message], false)
  | none =>
    match library.fetch request.key with
    | .ok buffers => (replies request.key buffers, true)
    | .error (.notFound _) => ([.initError request.key keyNotFound], false)
    | .error e => ([.initError request.key e.message], false)

/-- The reply to a request for data of a kind that is not supported. -/
def unsupported (agent : Agent) (text : String) (request : FetchRequest) : FetchReply :=
  match agent.token.refusal? request.token with
  | some refusal => .error request.token refusal.message
  | none => .error request.token text

end Fetch

namespace Agent

/-- The replies to a request for a resource. A stopped agent brings no resource. -/
def getResource (agent : Agent) (library : Library) (request : FetchRequest) : List FetchReply :=
  match Fetch.answer agent library request with
  | (replies, cut) => if cut && agent.stopped then [] else replies

/-- The reply to a request for common data. -/
def getCommon (agent : Agent) (request : FetchRequest) : FetchReply :=
  Fetch.unsupported agent Fetch.commonUnsupported request

/-- The reply to a request for direct data. -/
def getDirect (agent : Agent) (request : FetchRequest) : FetchReply :=
  Fetch.unsupported agent Fetch.directUnsupported request

end Agent

end Sidecar
