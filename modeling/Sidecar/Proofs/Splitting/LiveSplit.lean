import Sidecar.Proofs.Queue.Ledger
import Sidecar.Proofs.Splitting.Demux

/-!
# A split that can be stopped

A `LiveSplit` is a split and what the readers of its queues were answered. A list of `LiveEvent`s is
what happens to it, in any order. Other than in a `Demux`, nothing is known beforehand of the stream
that arrives, the split can be cancelled, and the caller can lose interest: in all groups, which
stops the producer, or in one that it was handed.

What has arrived is read off the events (`arrivals`). The groups of which it holds all replies are
those that the `Tracker` has seen completed (`completeGroups`).
-/

namespace Sidecar

/-! ## Readings -/

namespace Reading

variable {α : Type}

/-- What the reader of a queue has got, by what it was answered. -/
def of (heard : List (Received α)) : Reading α :=
  ⟨heard.flatMap Received.items, heard.findSome? Received.end?⟩

/-- Hearing an answer is taking note of it. -/
theorem of_hear (heard : List (Received α)) (r : Received α) :
    of (heard ++ r.heard) = (of heard).record r := by
  cases r <;>
    simp [of, record, close, Received.heard, Received.items, Received.end?, List.findSome?_append]

end Reading

/-! ## Events -/

/-- A split, and what the readers of its outer queue and of the queues of its groups were
answered. -/
structure LiveSplit where
  split : Splitter
  outer : List (Received (Nat × WorkerReply))
  inner : Nat → List (Received WorkerReply)

/-- What can happen: a reply or a failure of the transport arrives; the stream ends; the producer
takes its next step; the split is cancelled; the caller drops the groups, or the reader of one
group; the caller asks for the next group, or for the next reply of a group. -/
inductive LiveEvent where
  | arrive (item : Except Cause WorkerReply)
  | finish
  | step
  | cancel
  | dropGroups
  | dropGroup (group : Nat)
  | nextGroup
  | recv (group : Nat)

namespace LiveSplit

/-- Nothing has arrived. -/
def start : LiveSplit := ⟨.start, [], fun _ => []⟩

/-- What an event makes of a split and its readers. A caller that dropped the groups cannot ask for
the next one, and there is nobody to ask for the replies of a group that was not handed out or was
dropped. -/
def apply (d : LiveSplit) : LiveEvent → LiveSplit
  | .arrive item => { d with split := d.split.arrive item }
  | .finish => { d with split := d.split.finish }
  | .step =>
    match d.split.step with
    | none => d
    | some split => { d with split }
  | .cancel => { d with split := d.split.cancel }
  | .dropGroups => { d with split := d.split.dropGroups }
  | .dropGroup group => { d with split := d.split.dropGroup group }
  | .nextGroup =>
    if d.split.outer.readerGone then d
    else { d with split := d.split.nextGroup.2, outer := d.outer ++ d.split.nextGroup.1.heard }
  | .recv group =>
    match d.split.recv group with
    | none => d
    | some (received, split) =>
      { d with
        split
        inner := fun k => if k = group then d.inner k ++ received.heard else d.inner k }

/-- The split and its readers after some events. -/
def run (d : LiveSplit) (es : List LiveEvent) : LiveSplit := es.foldl apply d

@[simp] theorem run_nil (d : LiveSplit) : d.run [] = d := rfl

@[simp] theorem run_cons (d : LiveSplit) (e : LiveEvent) (es : List LiveEvent) :
    d.run (e :: es) = (d.apply e).run es := rfl

theorem run_append (d : LiveSplit) (es es' : List LiveEvent) :
    d.run (es ++ es') = (d.run es).run es' := List.foldl_append

/-- What the caller has got of the groups. -/
def handed (d : LiveSplit) : Reading (Nat × WorkerReply) := .of d.outer

/-- What the caller has got of the replies of a group. -/
def read (d : LiveSplit) (group : Nat) : Reading WorkerReply := .of (d.inner group)

end LiveSplit

/-! ## What has arrived -/

/-- The stream, as far as it arrives in the course of some events. Nothing belongs to it that comes
after its end. -/
def arrivals : List LiveEvent → List (Except Cause WorkerReply)
  | [] => []
  | .arrive item :: es => item :: arrivals es
  | .finish :: _ => []
  | _ :: es => arrivals es

/-- The groups of a stream that are complete, each with its replies. -/
def completeGroups (items : List (Except Cause WorkerReply)) : List (List WorkerReply) :=
  (cutAfter (Tracker.start.accept items).1).closed

/-- The replies of a stream that follow the last group that is complete. -/
def openGroup (items : List (Except Cause WorkerReply)) : List WorkerReply :=
  (cutAfter (Tracker.start.accept items).1).rest

/-! ## Reads that are answered -/

/-- How often the next group is asked for before the groups are dropped. -/
def outerReads : List LiveEvent → Nat
  | [] => 0
  | .nextGroup :: es => outerReads es + 1
  | .dropGroups :: _ => 0
  | _ :: es => outerReads es

/-- How often a reply of a group is asked for before the reader of the group is dropped. -/
def groupReads (group : Nat) : List LiveEvent → Nat
  | [] => 0
  | .recv k :: es => if k = group then groupReads group es + 1 else groupReads group es
  | .dropGroup k :: es => if k = group then 0 else groupReads group es
  | _ :: es => groupReads group es

/-! ## The reader of a group -/

namespace Splitter

variable {s s' : Splitter} {group : Nat} {q : Queue WorkerReply}

/-- The caller has the reader of a group that was handed out and not dropped. -/
theorem group?_eq_some_iff :
    s.group? group = some q ↔
      group < s.handedOut ∧ s.groups[group]? = some q ∧ q.readerGone = false := by
  unfold group?
  split
  next hgroup => simp [hgroup, Option.filter_eq_some_iff]
  next hgroup => simp [hgroup]

/-- Asking for a reply reads the queue of the group. -/
theorem recv_of_group? (h : s.group? group = some q) :
    s.recv group =
      some ((q.recv s.cancelled).1,
        { s with groups := s.groups.set group (q.recv s.cancelled).2 }) := by
  simp only [recv, h, Option.map_some]

/-- Without the reader there is no answer. -/
theorem recv_of_group?_none (h : s.group? group = none) : s.recv group = none := by
  simp only [recv, h, Option.map_none]

end Splitter

end Sidecar
