import Sidecar.Encoder

/-!
# Framing, one poll at a time

An `Encoder` leaves a buffer where it is until the reply that carries it can be given. A
`PolledEncoder` works as it is asked. A poll takes the next buffer out of the run and then looks at
the one after it; where nothing is to be seen there yet, the poll is suspended with the buffer in
its hands, and the next poll goes on from there. A stream that has reported its end is used up, and
whoever polls it again makes it panic.
-/

namespace Sidecar

/-! ## A run with one buffer of lookahead -/

/-- What a look at the next buffer of a run shows. -/
inductive Glimpse where
  | buffer (buffer : Bytes)
  | ended
  | pending
deriving DecidableEq, Repr

/-- A run of buffers that is read with one buffer of lookahead: the buffers that have arrived and
were not looked at, whether the run is over, and the buffer that was looked at and not taken. -/
structure Lookahead where
  arrived : List Bytes
  ended : Bool
  seen : Option Bytes
deriving DecidableEq, Repr

namespace Lookahead

/-- Take the next buffer. -/
def take (run : Lookahead) : Glimpse × Lookahead :=
  match run.seen, run.arrived with
  | some buffer, _ => (.buffer buffer, { run with seen := none })
  | none, buffer :: rest => (.buffer buffer, { run with arrived := rest })
  | none, [] => (if run.ended then .ended else .pending, run)

/-- Look at the next buffer without taking it. -/
def look (run : Lookahead) : Glimpse × Lookahead :=
  match run.seen, run.arrived with
  | some buffer, _ => (.buffer buffer, run)
  | none, buffer :: rest => (.buffer buffer, { run with arrived := rest, seen := some buffer })
  | none, [] => (if run.ended then .ended else .pending, run)

end Lookahead

/-! ## The encoder -/

/-- An encoder between two polls. `taken` is the buffer that a suspended poll has in its hands.
`done` is set with the last reply, and `spent` once the end was reported. -/
structure PolledEncoder where
  replyId : String
  key : Option String
  run : Lookahead
  taken : Option Bytes
  done : Bool
  spent : Bool
deriving DecidableEq, Repr

/-- What a poll comes to. -/
inductive Polled where
  | answered (framed : Framed)
  | panicked
deriving DecidableEq, Repr

namespace PolledEncoder

/-- The encoder of a run that has not begun. -/
def start (replyId key : String) : PolledEncoder :=
  ⟨replyId, some key, ⟨[], false, none⟩, none, false, false⟩

/-- Another buffer of the run arrives. After the end of the run nothing does. -/
def feed (e : PolledEncoder) (buffer : Bytes) : PolledEncoder :=
  if e.run.ended then e else { e with run.arrived := e.run.arrived ++ [buffer] }

/-- The run is over. -/
def finish (e : PolledEncoder) : PolledEncoder := { e with run.ended := true }

/-- With a buffer in its hands, the encoder looks whether it is the last one. -/
def proceed (e : PolledEncoder) (buffer : Bytes) : Framed × PolledEncoder :=
  match e.run.look with
  | (.pending, run) => (.pending, { e with run, taken := some buffer })
  | (glimpse, run) =>
    let last : Bool := glimpse = .ended
    let kind := match e.key with
      | some key => .init key ⟨buffer, last⟩
      | none => .data ⟨buffer, last⟩
    (.reply ⟨e.replyId, kind⟩, { e with run, key := none, taken := none, done := last })

/-- Go on to the next reply, from where the encoder was suspended. -/
def advance (e : PolledEncoder) : Framed × PolledEncoder :=
  match e.taken with
  | some buffer => e.proceed buffer
  | none =>
    if e.done then (.ended, e)
    else
      match e.run.take with
      | (.buffer buffer, run) => { e with run }.proceed buffer
      | (.ended, run) =>
        (if e.key.isSome then .violation .noData else .ended, { e with run, done := true })
      | (.pending, run) => (.pending, { e with run })

/-- Ask for the next reply. The end is reported once: no poll may follow. -/
def poll (e : PolledEncoder) : Polled × PolledEncoder :=
  if e.spent then (.panicked, e)
  else
    let (framed, e) := e.advance
    (.answered framed, { e with spent := framed = .ended })

end PolledEncoder

end Sidecar
