import Sidecar.Message.Basic
import Sidecar.Token

/-!
# What a worker asks of its agent

Two calls are streams of requests with one reply: creating tasks (`CreateRequest`, `CreateReply`)
and handing in a result (`ResultRequest`, `ResultReply`). Fetching data (`FetchRequest`) is
answered with a stream of `FetchReply`, and finalizing (`FinalizeRequest`) with one reply.

Every request carries the communication token. A reply carries the token back only where it
reports an error, and then as it was presented.
-/

namespace Sidecar

/-! ## Creating tasks -/

/-- The announcement of the next task, or that there is none. -/
inductive TaskIntro where
  | header (header : TaskHeader)
  | lastTask
deriving DecidableEq, Repr

/-- What a creation request says. -/
inductive CreateKind where
  | initRequest (options : Option TaskOptions)
  | initTask (intro : Option TaskIntro)
  | taskPayload (chunk : Option Chunk)
deriving DecidableEq

/-- One message of a creation stream. -/
structure CreateRequest where
  token : String
  kind : Option CreateKind
deriving DecidableEq

namespace CreateRequest

/-- Opens the stream, with options for every task that follows. -/
def init (token : String) (options : Option TaskOptions) : CreateRequest :=
  ⟨token, some (.initRequest options)⟩

/-- Announces a task. -/
def header (token : String) (header : TaskHeader) : CreateRequest :=
  ⟨token, some (.initTask (some (.header header)))⟩

/-- Ends the stream. -/
def lastTask (token : String) : CreateRequest := ⟨token, some (.initTask (some .lastTask))⟩

/-- A piece of the announced task's payload. -/
def data (token : String) (data : Bytes) : CreateRequest :=
  ⟨token, some (.taskPayload (some (.data data)))⟩

/-- Ends the announced task's payload. -/
def dataComplete (token : String) : CreateRequest :=
  ⟨token, some (.taskPayload (some .complete))⟩

/-- The name of the innermost case. -/
def caseName (request : CreateRequest) : String :=
  match request.kind with
  | none => "None"
  | some (.initRequest _) => "InitRequest"
  | some (.initTask none) => "InitTask.None"
  | some (.initTask (some (.header _))) => "Header"
  | some (.initTask (some .lastTask)) => "LastTask"
  | some (.taskPayload none) => "TaskPayload.None"
  | some (.taskPayload (some chunk)) => chunk.caseName

end CreateRequest

/-- How a creation call ended. -/
inductive CreateOutcome where
  | successful
  | nonSuccessfulIds (ids : List String)
  | error (message : String)
deriving DecidableEq, Repr

/-- The reply to a creation call. -/
structure CreateReply where
  token : String
  kind : CreateOutcome
deriving DecidableEq, Repr

namespace CreateReply

/-- All announced tasks were created. -/
def successful : CreateReply := ⟨"", .successful⟩

/-- None of the listed tasks was created. -/
def nonSuccessful (ids : List String) : CreateReply := ⟨"", .nonSuccessfulIds ids⟩

/-- The call failed. -/
def error (token message : String) : CreateReply := ⟨token, .error message⟩

end CreateReply

/-! ## Handing in a result -/

/-- The key the result goes under, or that the call is complete. -/
inductive ResultIntro where
  | key (key : String)
  | lastResult
deriving DecidableEq, Repr

/-- What a result request says. -/
inductive ResultKind where
  | init (intro : Option ResultIntro)
  | data (chunk : Option Chunk)
deriving DecidableEq, Repr

/-- One message of a result stream. -/
structure ResultRequest where
  token : String
  kind : Option ResultKind
deriving DecidableEq, Repr

namespace ResultRequest

/-- Announces the key. -/
def key (token key : String) : ResultRequest := ⟨token, some (.init (some (.key key)))⟩

/-- Ends the stream. -/
def lastResult (token : String) : ResultRequest := ⟨token, some (.init (some .lastResult))⟩

/-- A piece of the result. -/
def data (token : String) (data : Bytes) : ResultRequest :=
  ⟨token, some (.data (some (.data data)))⟩

/-- Ends the result's data. -/
def dataComplete (token : String) : ResultRequest := ⟨token, some (.data (some .complete))⟩

/-- The name of the innermost case. -/
def caseName (request : ResultRequest) : String :=
  match request.kind with
  | none => "None"
  | some (.init none) => "Init.None"
  | some (.init (some (.key _))) => "InitKey"
  | some (.init (some .lastResult)) => "LastResult"
  | some (.data none) => "Data.None"
  | some (.data (some chunk)) => chunk.caseName

end ResultRequest

/-- How a result call ended. -/
inductive ResultOutcome where
  | ok
  | error (message : String)
deriving DecidableEq, Repr

/-- The reply to a result call. -/
structure ResultReply where
  token : String
  kind : ResultOutcome
deriving DecidableEq, Repr

namespace ResultReply

/-- The result is stored. -/
def ok : ResultReply := ⟨"", .ok⟩

/-- The call failed. -/
def error (token message : String) : ResultReply := ⟨token, .error message⟩

end ResultReply

/-! ## Fetching data -/

/-- A request for the data under a key. -/
structure FetchRequest where
  token : String
  key : String
deriving DecidableEq, Repr

/-- What the first reply of a keyed stream brings. -/
inductive FetchOpening where
  | data (chunk : Chunk)
  | error (message : String)
deriving DecidableEq, Repr

/-- What a fetch reply says: the first one names the key, the others do not. -/
inductive FetchKind where
  | init (key : String) (opening : FetchOpening)
  | data (chunk : Chunk)
  | error (message : String)
deriving DecidableEq, Repr

/-- One reply of a fetch. -/
structure FetchReply where
  token : String
  kind : FetchKind
deriving DecidableEq, Repr

namespace FetchReply

/-- The request was refused, or the data broke off. -/
def error (token message : String) : FetchReply := ⟨token, .error message⟩

/-- The key and the first buffer. -/
def initData (key : String) (data : Bytes) : FetchReply := ⟨"", .init key (.data (.data data))⟩

/-- The key has no data to offer. -/
def initError (key message : String) : FetchReply := ⟨"", .init key (.error message)⟩

/-- A further buffer. -/
def data (data : Bytes) : FetchReply := ⟨"", .data (.data data)⟩

/-- All data were sent. -/
def complete : FetchReply := ⟨"", .data .complete⟩

end FetchReply

/-! ## Finalizing -/

/-- A request to release the tasks created so far. -/
structure FinalizeRequest where
  token : String
deriving DecidableEq, Repr

/-- How finalizing ended. -/
inductive FinalizeOutcome where
  | finalized (count : Nat)
  | error (message : String)
deriving DecidableEq, Repr

/-- The reply to a finalize request. -/
structure FinalizeReply where
  token : String
  kind : FinalizeOutcome
deriving DecidableEq, Repr

/-! ## Calls on a connection -/

/-- The first message of a connection: which call it carries. A call that takes a single request
carries it here. -/
inductive CallHeader where
  | createTask
  | sendResult
  | getResource (request : FetchRequest)
  | getCommon (request : FetchRequest)
  | getDirect (request : FetchRequest)
  | finalize (request : FinalizeRequest)
deriving DecidableEq, Repr

/-- The name of the call. -/
def CallHeader.name : CallHeader → String
  | createTask => "CreateTask"
  | sendResult => "SendResult"
  | getResource _ => "GetResourceData"
  | getCommon _ => "GetCommonData"
  | getDirect _ => "GetDirectData"
  | finalize _ => "FinalizeTaskCreation"

/-- A message from the agent on a connection. `failed` reports a call that was aborted: its stream
broke the order of messages or broke off, or the agent stopped. -/
inductive ServerFrame where
  | createTask (reply : CreateReply)
  | sendResult (reply : ResultReply)
  | data (reply : FetchReply)
  | finalize (reply : FinalizeReply)
  | failed (message : String)
deriving DecidableEq, Repr

end Sidecar
