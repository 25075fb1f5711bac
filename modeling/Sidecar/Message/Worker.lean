import Sidecar.Message.Basic

/-!
# What a worker streams back

While it processes a task, a worker answers on one stream that carries many logical requests back
to back. A `WorkerReply` belongs to the kind of request its top-level case names (`ReplyTag`);
where one request ends and the next begins is only visible from these tags and from the completion
flags inside. In the other direction, a `KeyedReply` brings the worker the data of a key it asked
for.
-/

namespace Sidecar

/-- The kind of logical request a worker's reply belongs to. -/
inductive ReplyTag where
  | output
  | result
  | createLargeTask
  | resource
  | commonData
  | directData
  | createSmallTask
deriving DecidableEq, Repr

namespace ReplyTag

/-- The name of the tag. -/
def name : ReplyTag → String
  | output => "Output"
  | result => "Result"
  | createLargeTask => "CreateLargeTask"
  | resource => "Resource"
  | commonData => "CommonData"
  | directData => "DirectData"
  | createSmallTask => "CreateSmallTask"

/-- All tags. -/
def all : List ReplyTag :=
  [output, result, createLargeTask, resource, commonData, directData, createSmallTask]

/-- The tag of a name. -/
def ofName? (name : String) : Option ReplyTag := all.find? fun tag => tag.name = name

/-- Is a request of this kind a single message long? -/
def isSingleMessage : ReplyTag → Bool
  | resource | commonData | directData | createSmallTask => true
  | output | result | createLargeTask => false

end ReplyTag

/-- The start of a task's output: an error or the first fragment. -/
inductive OutputIntro where
  | error (message : String)
  | fragment (fragment : Fragment)
deriving DecidableEq, Repr

/-- A piece of a task's output. -/
inductive OutputPart where
  | init (intro : Option OutputIntro)
  | data (fragment : Fragment)
deriving DecidableEq, Repr

/-- A piece of a keyed result. -/
inductive ResultPart where
  | init (key : String) (fragment : Fragment)
  | data (fragment : Fragment)
deriving DecidableEq, Repr

/-- The announcement of a large task, with the first part of its payload. `payloadComplete` says
that it is all of it, `lastTask` that no other task is announced after this one. -/
structure LargeTask where
  header : TaskHeader
  payload : Bytes
  payloadComplete : Bool
  lastTask : Bool
deriving DecidableEq, Repr, Inhabited

/-- A piece of the payload of a large task. -/
structure PayloadPart where
  data : Bytes
  complete : Bool
deriving DecidableEq, Repr, Inhabited

/-- A piece of the creation of large tasks. -/
inductive LargeTaskPart where
  | initRequest (options : Option TaskOptions)
  | initTask (task : LargeTask)
  | taskPayload (part : PayloadPart)
deriving DecidableEq

/-- A task small enough to travel in one message. -/
structure SmallTask where
  header : TaskHeader
  payload : Bytes
deriving DecidableEq, Repr, Inhabited

/-- Small tasks that are created together. -/
structure SmallTaskBatch where
  options : Option TaskOptions
  tasks : List SmallTask
deriving DecidableEq, Inhabited

/-- What a worker's reply says. -/
inductive ReplyKind where
  | output (part : Option OutputPart)
  | result (part : Option ResultPart)
  | createLargeTask (part : Option LargeTaskPart)
  | resource (key : String)
  | commonData (key : String)
  | directData (key : String)
  | createSmallTask (batch : SmallTaskBatch)
deriving DecidableEq

/-- The kind of request a reply belongs to. -/
def ReplyKind.tag : ReplyKind → ReplyTag
  | output _ => .output
  | result _ => .result
  | createLargeTask _ => .createLargeTask
  | resource _ => .resource
  | commonData _ => .commonData
  | directData _ => .directData
  | createSmallTask _ => .createSmallTask

/-- One reply of a worker. -/
structure WorkerReply where
  requestId : String
  token : String
  kind : Option ReplyKind
deriving DecidableEq

namespace WorkerReply

/-- A reply to a request, without a token. -/
def ofKind (requestId : String) (kind : ReplyKind) : WorkerReply := ⟨requestId, "", some kind⟩

/-- The kind of request it belongs to, if its case is set. -/
def tag? (reply : WorkerReply) : Option ReplyTag := reply.kind.map ReplyKind.tag

end WorkerReply

/-- What a keyed reply brings: the first one names the key. -/
inductive KeyedKind where
  | init (key : String) (fragment : Fragment)
  | data (fragment : Fragment)
deriving DecidableEq, Repr

/-- One piece of the data a worker asked for. -/
structure KeyedReply where
  replyId : String
  kind : KeyedKind
deriving DecidableEq, Repr

namespace KeyedReply

/-- The data it brings. -/
def fragment (reply : KeyedReply) : Fragment :=
  match reply.kind with
  | .init _ fragment => fragment
  | .data fragment => fragment

/-- Is it the first piece? -/
def isInit (reply : KeyedReply) : Bool :=
  match reply.kind with
  | .init .. => true
  | .data _ => false

end KeyedReply

end Sidecar
