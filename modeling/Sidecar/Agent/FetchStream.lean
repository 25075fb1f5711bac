import Sidecar.Agent.Fetch

/-!
# Fetching, one poll at a time

The replies to a fetch are made as they are asked for. A `FetchStream` has either one reply, which
is there from the beginning, or it brings a resource: each poll asks the resource for its next
buffer and is suspended while there is none. Replies that bring a resource are asked for only until
the agent is stopped. A poll that finds it stopped ends the stream for good, wherever it was.
-/

namespace Sidecar

/-- How far the replies that bring a resource have come: to none, to some, or to the last one. -/
inductive FetchPhase where
  | first
  | rest
  | done
deriving DecidableEq, Repr

/-- The replies that bring a resource: its key, how far they have come, and what was not yet read.
-/
structure ResourceReplies where
  key : String
  phase : FetchPhase
  unread : Buffers

namespace ResourceReplies

/-- The replies that bring a resource of which nothing was read. -/
def start (key : String) (buffers : Buffers) : ResourceReplies := ⟨key, .first, buffers⟩

/-- The next reply, from the next buffer or the end of the resource. -/
def next? (r : ResourceReplies) : Option (FetchReply × ResourceReplies) :=
  match r.phase, r.unread with
  | .done, _ => none
  | .first, .ok data :: unread => some (.initData r.key data, { r with phase := .rest, unread })
  | .first, [] => some (.initError r.key Violation.noData.message, { r with phase := .done })
  | .first, .error e :: unread =>
    some (.initError r.key e.message, { r with phase := .done, unread })
  | .rest, .ok data :: unread => some (.data data, { r with unread })
  | .rest, [] => some (.complete, { r with phase := .done })
  | .rest, .error e :: unread => some (.error "" e.message, { r with phase := .done, unread })

end ResourceReplies

/-- The replies to a fetch: a single one, until it is given, or those that bring a resource, until
the stream is finished. -/
inductive FetchStream where
  | single (reply? : Option FetchReply)
  | resource (replies : ResourceReplies) (finished : Bool)

/-- What a poll of the stream is answered. -/
inductive Fetched where
  | reply (reply : FetchReply)
  | ended
  | pending
deriving DecidableEq, Repr

namespace FetchStream

/-- The stream that answers a request for a resource. -/
def ofRequest (agent : Agent) (library : Library) (request : FetchRequest) : FetchStream :=
  match agent.token.refusal? request.token with
  | some refusal => .single (some (.error request.token refusal.message))
  | none =>
    match library.fetch request.key with
    | .ok buffers => .resource (.start request.key buffers) false
    | .error (.notFound _) => .single (some (.initError request.key Fetch.keyNotFound))
    | .error e => .single (some (.initError request.key e.message))

/-- Ask for the next reply. `ready` says whether the resource has its next buffer or its end at
hand, and `stopped` whether the agent was stopped. -/
def poll (stream : FetchStream) (ready stopped : Bool) : Fetched × FetchStream :=
  match stream with
  | single (some reply) => (.reply reply, single none)
  | single none => (.ended, stream)
  | resource replies finished =>
    if finished || stopped then (.ended, resource replies true)
    else if replies.phase ≠ .done ∧ ¬ ready then (.pending, stream)
    else
      match replies.next? with
      | some (reply, replies) => (.reply reply, resource replies false)
      | none => (.ended, resource replies true)

end FetchStream

end Sidecar
