import Sidecar.Cause
import Sidecar.Settle
import Sidecar.Queue.Basic
import Sidecar.Protocol.Tracker

/-!
# Splitting a live stream into groups

A `Splitter` reads a stream of worker replies and hands out one group per logical request. A
producer runs beside the caller: it takes the replies that have arrived, asks the `Tracker` where
groups begin and end, and puts each reply into the queue of its group. A group is handed out through
an outer queue of one slot as soon as its first reply is known, and its own queue keeps filling
while the caller handles earlier groups.

Whatever stops the stream, a refused reply, a broken transport or an end inside a group, reaches
both the reader of the open group and the reader of the groups, after everything they still have to
read.
-/

namespace Sidecar

/-- What the producer is doing: reading the stream, waiting for the slot to hand out a group that
starts with the given reply, waiting for the slot to end the outer queue, or nothing any more. -/
inductive SplitPhase where
  | reading
  | handing (group : Nat) (first : WorkerReply) (completes : Bool)
  | ending
  | stopped
deriving DecidableEq

/-- The state of a split. Groups are numbered in the order in which they are opened, which is the
order in which they are handed out. `current` is the group whose queue the producer still writes. -/
structure Splitter where
  arrived : List (Except Cause WorkerReply)
  ended : Bool
  cancelled : Bool
  tracker : Tracker
  phase : SplitPhase
  outer : Queue (Nat × WorkerReply)
  groups : List (Queue WorkerReply)
  current : Option Nat
  handedOut : Nat

namespace Splitter

/-- A split of a stream of which nothing has arrived. -/
def start : Splitter :=
  ⟨[], false, false, .start, .reading, .bounded 1, [], none, 0⟩

/-! ## The producer -/

/-- The producer stops. Its ends of the queues go away. -/
def halt (s : Splitter) : Splitter :=
  { s with
    phase := .stopped
    outer := s.outer.dropWriter
    groups := s.groups.map Queue.dropWriter
    current := none }

/-- Put an entry into the queue of a group. A caller that dropped the group is no obstacle. -/
def put (s : Splitter) (group : Nat) (entry : Entry WorkerReply) : Splitter :=
  { s with groups := s.groups.modify group fun q => (q.send s.cancelled entry).2 }

/-- The producer is done with the queue of a group. -/
def release (s : Splitter) (group : Nat) : Splitter :=
  { s with groups := s.groups.modify group Queue.dropWriter, current := none }

/-- Deliver a reply to its group, and close the group if the reply completes it. -/
def deliver (s : Splitter) (group : Nat) (reply : WorkerReply) (completes : Bool) : Splitter :=
  let s := s.put group (.item reply)
  if completes then (s.put group .close).release group else { s with current := some group }

/-- End the outer queue, or wait for a slot to do so. -/
def conclude (s : Splitter) (entry : Entry (Nat × WorkerReply)) : Splitter :=
  match s.outer.send s.cancelled entry with
  | (.suspended, outer) => { s with outer, phase := .ending }
  | (_, outer) => { s with outer }.halt

/-- Fail the open group, if there is one, and the outer queue. -/
def failBoth (s : Splitter) (error : QueueError) : Splitter :=
  let s := match s.current with
    | some group => (s.put group (.fail error)).release group
    | none => s
  s.conclude (.fail error)

/-- Hand out a group whose outcome in the outer queue is known. -/
def handOut (s : Splitter) (group : Nat) (first : WorkerReply) (completes : Bool)
    (outcome : Sent × Queue (Nat × WorkerReply)) : Splitter :=
  match outcome with
  | (.landed, outer) => { s with outer, phase := .reading }.deliver group first completes
  | (.suspended, outer) => { s with outer, phase := .handing group first completes }
  | (.refused _, outer) => { s with outer }.halt

/-- Take in one reply. -/
def takeIn (s : Splitter) (reply : WorkerReply) : Splitter :=
  match s.tracker.observe reply with
  | .error violation => s.failBoth (.violation violation)
  | .ok (boundary, tracker) =>
    let s := { s with tracker }
    if boundary.starts then
      let group := s.groups.length
      let s := { s with groups := s.groups ++ [Queue.unbounded] }
      s.handOut group reply boundary.completes
        (s.outer.send s.cancelled (.item (group, reply)))
    else
      match s.current with
      | some group => s.deliver group reply boundary.completes
      | none => s

/-- The stream is over. Inside a group that is a violation. -/
def takeEnd (s : Splitter) : Splitter :=
  match s.tracker.opened with
  | some tag => s.failBoth (.violation (.unexpectedEnd tag.name))
  | none => s.conclude .close

/-- The error readers get when the stream breaks. -/
def broken (cause : Cause) : QueueError := .failed ("reply stream failed: " ++ cause.full)

/-- The producer's next step, if it is not waiting for anything. -/
def step (s : Splitter) : Option Splitter :=
  match s.phase with
  | .stopped => none
  | .reading =>
    if s.cancelled then some s.halt
    else
      match s.arrived with
      | .ok reply :: rest => some ({ s with arrived := rest }.takeIn reply)
      | .error cause :: rest => some ({ s with arrived := rest }.failBoth (broken cause))
      | [] => if s.ended then some s.takeEnd else none
  | .handing group first completes =>
    if s.cancelled then some s.halt
    else if s.outer.hasRoom then
      some (s.handOut group first completes (s.outer.resume s.cancelled (.item (group, first))))
    else none
  | .ending =>
    if s.cancelled then some s.halt
    else
      match s.outer.waiting with
      | some entry =>
        if s.outer.hasRoom then some { s with outer := (s.outer.resume s.cancelled entry).2 }.halt
        else none
      | none => some s.halt

/-- Let the producer run until it waits. Every reply takes at most two steps, and the end takes
three. -/
def run (s : Splitter) : Splitter := settle step (2 * s.arrived.length + 3) s

/-! ## The stream -/

/-- Does the producer still take replies? -/
def isOpen (s : Splitter) : Bool := s.phase != .stopped && !s.ended

/-- A reply or a failure of the transport arrives. -/
def arrive (s : Splitter) (item : Except Cause WorkerReply) : Splitter :=
  if s.isOpen then { s with arrived := s.arrived ++ [item] } else s

/-- The stream ends. -/
def finish (s : Splitter) : Splitter := { s with ended := true }

/-- The split is cancelled. -/
def cancel (s : Splitter) : Splitter := { s with cancelled := true }

/-! ## The caller -/

/-- The next group, with its first reply. -/
def nextGroup (s : Splitter) : Received (Nat × WorkerReply) × Splitter :=
  match s.outer.recv s.cancelled with
  | (.item group, outer) => (.item group, { s with outer, handedOut := s.handedOut + 1 })
  | (received, outer) => (received, { s with outer })

/-- The queue of a group whose reader the caller has. -/
def group? (s : Splitter) (group : Nat) : Option (Queue WorkerReply) :=
  if group < s.handedOut then s.groups[group]?.filter fun q => !q.readerGone else none

/-- The next reply of a group. -/
def recv (s : Splitter) (group : Nat) : Option (Received WorkerReply × Splitter) :=
  (s.group? group).map fun q =>
    let (received, q) := q.recv s.cancelled
    (received, { s with groups := s.groups.set group q })

/-- All replies of a group that can be taken now, and what came instead of another one. The reader
goes away. -/
def collect (s : Splitter) (group : Nat) :
    Option (List WorkerReply × Received WorkerReply × Splitter) :=
  (s.group? group).map fun q =>
    let (items, last, q) := q.takeAll s.cancelled
    (items, last, { s with groups := s.groups.set group q.dropReader })

/-- The caller drops the reader of a group. -/
def dropGroup (s : Splitter) (group : Nat) : Splitter :=
  if group < s.handedOut then { s with groups := s.groups.modify group Queue.dropReader } else s

/-- The caller drops the groups, which stops the producer. Groups that are not handed out yet lose
their readers. -/
def dropGroups (s : Splitter) : Splitter :=
  let s := s.halt
  { s with
    outer := s.outer.dropReader
    groups := s.groups.mapIdx fun i q => if i < s.handedOut then q else q.dropReader }

end Splitter

end Sidecar
