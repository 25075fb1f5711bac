import Sidecar.Message.Worker
import Sidecar.Protocol.Violation

/-!
# Framing buffers as keyed replies

An `Encoder` turns a run of buffers into the replies to one request. The first reply carries the
key, and the last one says that it is the last, so a reply can only be given once it is known
whether another buffer follows: the encoder looks one buffer ahead. A run without any buffer is a
violation.
-/

namespace Sidecar

/-- The buffers of a run that are not framed yet, whether the run is over, and the key until the
first reply has taken it. `done` is set with the last reply. -/
structure Encoder where
  replyId : String
  key : Option String
  buffers : List Bytes
  ended : Bool
  done : Bool
deriving DecidableEq, Repr

/-- What asking for the next reply yields. -/
inductive Framed where
  | reply (reply : KeyedReply)
  | violation (cause : Violation)
  | ended
  | pending
deriving DecidableEq, Repr

namespace Encoder

/-- The encoder of a run that has not begun. -/
def start (replyId key : String) : Encoder := ⟨replyId, some key, [], false, false⟩

/-- Another buffer of the run arrives. After the end of the run nothing does. -/
def feed (e : Encoder) (buffer : Bytes) : Encoder :=
  if e.ended then e else { e with buffers := e.buffers ++ [buffer] }

/-- The run is over. -/
def finish (e : Encoder) : Encoder := { e with ended := true }

/-- The reply that carries a fragment: the first one names the key. -/
def frame (e : Encoder) (fragment : Fragment) : KeyedReply :=
  match e.key with
  | some key => ⟨e.replyId, .init key fragment⟩
  | none => ⟨e.replyId, .data fragment⟩

/-- Ask for the next reply. -/
def next (e : Encoder) : Framed × Encoder :=
  if e.done then (.ended, e)
  else
    match e.buffers with
    | buffer :: next :: rest =>
      (.reply (e.frame ⟨buffer, false⟩), { e with key := none, buffers := next :: rest })
    | [buffer] =>
      if e.ended then
        (.reply (e.frame ⟨buffer, true⟩), { e with key := none, buffers := [], done := true })
      else (.pending, e)
    | [] =>
      if e.ended then
        (if e.key.isSome then .violation .noData else .ended, { e with done := true })
      else (.pending, e)

end Encoder

end Sidecar
