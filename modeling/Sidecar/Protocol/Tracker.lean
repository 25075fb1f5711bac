import Sidecar.Protocol.Violation

/-!
# Where one logical request ends

Replies to many logical requests come back to back on one stream. A `Tracker` decides, one reply
after the other, whether the reply opens a group and whether it completes it, from the reply's tag
and its completion flags alone. Groups do not interleave: while one is open, a reply with another
tag is a violation.

`Tracker.observe` gives the tracker after a reply that is accepted. `Tracker.observeInPlace` changes
the tracker step by step, as it is kept.
-/

namespace Sidecar

/-- What a reply does to the group it belongs to. -/
structure Boundary where
  starts : Bool
  completes : Bool
deriving DecidableEq, Repr

/-- The open group, if there is one. While large tasks are being created, `lastTaskArmed` says that
the last of them has been announced. -/
structure Tracker where
  opened : Option ReplyTag
  lastTaskArmed : Bool
deriving DecidableEq, Repr

namespace Tracker

/-- Nothing is open. -/
def start : Tracker := ⟨none, false⟩

/-- Does a part of the creation of large tasks complete it, and is the last task announced by
then? -/
def largeTaskStep (armed : Bool) : LargeTaskPart → Bool × Bool
  | .initRequest _ => (false, armed)
  | .initTask task =>
    if task.lastTask && task.payloadComplete then (true, armed)
    else (false, armed || task.lastTask)
  | .taskPayload part => (part.complete && armed, armed)

/-- Does a reply complete its group, and is the last task announced by then? A union that is left
unset inside the reply is a violation. -/
def completion (armed : Bool) : ReplyKind → Except Violation (Bool × Bool)
  | .output none => .error (.unknownCase "Output.None")
  | .output (some (.init none)) => .error (.unknownCase "Output.Init.None")
  | .output (some (.init (some (.error _)))) => .ok (true, armed)
  | .output (some (.init (some (.fragment f)))) => .ok (f.last, armed)
  | .output (some (.data f)) => .ok (f.last, armed)
  | .result none => .error (.unknownCase "Result.None")
  | .result (some (.init _ f)) => .ok (f.last, armed)
  | .result (some (.data f)) => .ok (f.last, armed)
  | .createLargeTask none => .error (.unknownCase "CreateLargeTask.None")
  | .createLargeTask (some part) => .ok (largeTaskStep armed part)
  | .resource _ | .commonData _ | .directData _ | .createSmallTask _ => .ok (true, armed)

/-- What a reply does to the groups, and the tracker after it. -/
def observe (tracker : Tracker) (reply : WorkerReply) : Except Violation (Boundary × Tracker) :=
  match reply.kind with
  | none => .error (.unknownCase "None")
  | some kind => do
    let starts ← match tracker.opened with
      | none => .ok true
      | some tag => if tag = kind.tag then .ok false else .error (.interleaved tag kind.tag)
    let (completes, armed) ← completion (!starts && tracker.lastTaskArmed) kind
    let after := if completes then ⟨none, false⟩ else ⟨some kind.tag, armed⟩
    return (⟨starts, completes⟩, after)

/-! ## In place

A tracker that is kept is changed while a reply is looked at, so a reply that is refused half way
leaves behind what was changed before. -/

/-- Does a reply complete its group? On the way the tracker takes note of the last task. -/
def completing (kind : ReplyKind) : ExceptT Violation (StateM Tracker) Bool := do
  let (completes, armed) ← MonadExcept.ofExcept (completion (← get).lastTaskArmed kind)
  modify ({ · with lastTaskArmed := armed })
  return completes

/-- Whether a reply completes its group, once it is known whether it starts it. -/
def closeInPlace (starts : Bool) (kind : ReplyKind) :
    ExceptT Violation (StateM Tracker) Boundary := do
  let completes ← if kind.tag.isSingleMessage then pure true else completing kind
  modify ({ · with opened := if completes then none else some kind.tag })
  if completes then modify ({ · with lastTaskArmed := false })
  return ⟨starts, completes⟩

/-- What a reply does to the groups, with the tracker changed in place. -/
def observeInPlace (reply : WorkerReply) : ExceptT Violation (StateM Tracker) Boundary := do
  let some kind := reply.kind | throw (.unknownCase "None")
  let starts ← match (← get).opened with
    | none => pure true
    | some tag => if tag = kind.tag then pure false else throw (.interleaved tag kind.tag)
  if starts then modify ({ · with lastTaskArmed := false })
  closeInPlace starts kind

/-- The tracker on one line. -/
def render (tracker : Tracker) : String :=
  "GroupTracker \x7b open: " ++
    (match tracker.opened with
      | none => "None"
      | some tag => "Some(" ++ tag.name ++ ")") ++
    ", last_task_armed: " ++ (if tracker.lastTaskArmed then "true" else "false") ++ " \x7d"

end Tracker

end Sidecar
