import Sidecar.Agent.Fetch
import Sidecar.Agent.Session
import Sidecar.Transport.Frame
import Sidecar.Wire.Codec

/-!
# Serving a connection

A connection carries one call. Its first frame is the call's header; the requests of a streaming
call follow, one in a frame. The agent answers with one reply, or with the replies of a fetch, and
closes the connection. A frame that cannot be read or is no request breaks the request stream. A
connection whose first frame is no header is not answered at all, and one that would have to carry a
frame that is too long breaks before it.
-/

namespace Sidecar

/-- What serves connections: an agent, its backend and its resources. -/
structure Host where
  agent : Agent
  backend : Backend
  library : Library

/-- How the client leaves its side of a connection: closed, open, or open until the agent is
stopped. -/
inductive Closing where
  | closed
  | held
  | stopping
deriving DecidableEq, Repr

/-- How serving a connection ended, if it did. -/
inductive Served where
  | ok
  | badHeader
  | frameTooLong
  | unfinished
deriving DecidableEq, Repr

/-- The text for a connection that failed. -/
def Served.message? : Served → Option String
  | ok | unfinished => none
  | badHeader => some "bad call header"
  | frameTooLong => some "failed to write frame"

/-- The cause of a frame that could not be read. -/
def unreadableFrame : Cause := .ofText "failed to read frame"

/-- The cause of a frame that is no request. -/
def malformedFrame : Cause := .ofText "malformed frame"

namespace Connection

/-- The request in a frame. -/
def arrival {μ : Type} [Wire μ] (body : Bytes) : Arrival μ :=
  match Wire.decode? body with
  | some request => .message request
  | none => .broken malformedFrame

/-- The request stream of the frames after the header. -/
def inbox {μ : Type} [Wire μ] (bodies : List Bytes) (tail : Frame.Tail) : Inbox μ :=
  let arrivals := bodies.map arrival
  match tail with
  | .waiting => ⟨arrivals, false⟩
  | .ended => ⟨arrivals, true⟩
  | .broken => ⟨arrivals ++ [.broken unreadableFrame], true⟩

/-- The frame that reports the outcome of a streaming call. -/
def report : CallResult → ServerFrame
  | .create (.ok reply) => .createTask reply
  | .result (.ok reply) => .sendResult reply
  | .create (.error e) | .result (.error e) => .failed e.message

/-- Serve a streaming call. -/
def serveCall (host : Host) (closing : Closing) (call : Call) :
    List ServerFrame × Served × Host :=
  let session := (Session.alone host.agent host.backend call).run
  let session := if closing = .stopping then session.stop.run else session
  let host := { host with agent := session.agent, backend := session.backend }
  match session.outcome? with
  | some result => ([report result], .ok, host)
  | none => ([], .unfinished, host)

/-- Serve the call that a header names. -/
def serveHeader (host : Host) (closing : Closing) (header : CallHeader) (bodies : List Bytes)
    (tail : Frame.Tail) : List ServerFrame × Served × Host :=
  match header with
  | .createTask =>
    serveCall host closing (.create { CreateCall.start with inbox := inbox bodies tail })
  | .sendResult =>
    serveCall host closing (.result { ResultCall.start with inbox := inbox bodies tail })
  | .getResource request =>
    ((host.agent.getResource host.library request).map .data, .ok, host)
  | .getCommon request => ([.data (host.agent.getCommon request)], .ok, host)
  | .getDirect request => ([.data (host.agent.getDirect request)], .ok, host)
  | .finalize request =>
    let (reply, agent, backend) := host.agent.finalize host.backend request
    ([.finalize reply], .ok, { host with agent, backend })

/-- Serve the frames of a connection: the header, and then what it calls for. -/
def serveFrames (host : Host) (closing : Closing) :
    List Bytes × Frame.Tail → List ServerFrame × Served × Host
  | ([], .ended) => ([], .ok, host)
  | ([], .waiting) => ([], .unfinished, host)
  | ([], .broken) => ([], .badHeader, host)
  | (first :: bodies, tail) =>
    match Wire.decode? first with
    | some header => serveHeader host closing header bodies tail
    | none => ([], .badHeader, host)

/-- Is the frame short enough to be written? -/
def fits (frame : ServerFrame) : Bool := (Wire.encode frame).length ≤ Frame.maxLength

/-- Write frames up to one that is too long. -/
def write (frames : List ServerFrame) (served : Served) : List ServerFrame × Served :=
  if frames.all fits then (frames, served) else (frames.takeWhile fits, .frameTooLong)

/-- Serve a connection on which the given bytes come in. -/
def serve (host : Host) (closing : Closing) (bytes : Bytes) :
    List ServerFrame × Served × Host :=
  let (frames, served, host) :=
    serveFrames host closing (Frame.frames (closing = .closed) bytes)
  let (frames, served) := write frames served
  (frames, served, if closing = .stopping then { host with agent := host.agent.stop } else host)

/-- The bytes that go out on a connection. -/
def output (frames : List ServerFrame) : Bytes :=
  frames.flatMap fun frame => Frame.encode (Wire.encode frame)

end Connection

end Sidecar
