import Sidecar.Proofs.Splitting.Delivery

/-!
# A split and its caller

A `Demux` is a split, the part of its stream that has not arrived, and what its caller has read: the
groups that were handed out, and what came out of each of them. A list of `DemuxEvent`s is a
schedule. It interleaves, in any order, the arrival of the stream, the steps of the producer, and
the calls that ask for the next group or for the next reply of a group.

`Queued` says how the queues of the groups stand to the parts into which the replies were cut.
-/

namespace Sidecar

/-- A split, what is still to arrive, and what its caller has read. -/
structure Demux where
  input : List (Except Cause WorkerReply)
  split : Splitter
  outer : Reading (Nat × WorkerReply)
  inner : Nat → Reading WorkerReply

/-- What can happen: the next element of the stream arrives, or its end after the last one; the
producer takes its next step; the caller asks for the next group, or for the next reply of a
group. -/
inductive DemuxEvent where
  | arrive
  | step
  | nextGroup
  | recv (group : Nat)

namespace Demux

/-- Nothing has arrived. -/
def start (items : List (Except Cause WorkerReply)) : Demux :=
  ⟨items, .start, .start, fun _ => .start⟩

/-- What an event makes of a split and its caller. The caller cannot ask for replies of a group that
was not handed out. -/
def apply (d : Demux) : DemuxEvent → Demux
  | .arrive =>
    match d.input with
    | [] => { d with split := d.split.finish }
    | item :: rest => { d with input := rest, split := d.split.arrive item }
  | .step =>
    match d.split.step with
    | none => d
    | some split => { d with split }
  | .nextGroup =>
    { d with split := d.split.nextGroup.2, outer := d.outer.record d.split.nextGroup.1 }
  | .recv group =>
    match d.split.recv group with
    | none => d
    | some (received, split) =>
      { d with
        split
        inner := fun k => if k = group then (d.inner k).record received else d.inner k }

/-- The split and its caller after some events. -/
def run (d : Demux) (es : List DemuxEvent) : Demux := es.foldl apply d

@[simp] theorem run_nil (d : Demux) : d.run [] = d := rfl

@[simp] theorem run_cons (d : Demux) (e : DemuxEvent) (es : List DemuxEvent) :
    d.run (e :: es) = (d.apply e).run es := rfl

theorem run_append (d : Demux) (es es' : List DemuxEvent) :
    d.run (es ++ es') = (d.run es).run es' := List.foldl_append

end Demux

/-! ## The queues of the groups -/

/-- The queue of a group, as far as its producer has got with it. -/
def Fills (groups : List (Queue WorkerReply)) (inner : Nat → Reading WorkerReply) (group : Nat)
    (content : List WorkerReply) (outcome : Option SequenceEnd) : Prop :=
  ∃ q, groups[group]? = some q ∧ q.capacity = none ∧ q.Delivers (inner group) content outcome

namespace Fills

variable {groups : List (Queue WorkerReply)} {inner : Nat → Reading WorkerReply} {group : Nat}
  {content : List WorkerReply} {outcome : Option SequenceEnd}

/-- What is done to the queue of another group does not matter. -/
theorem modify_of_ne (h : Fills groups inner group content outcome) {other : Nat}
    (hne : other ≠ group) (f : Queue WorkerReply → Queue WorkerReply) :
    Fills (groups.modify other f) inner group content outcome := by
  obtain ⟨q, hq, hcapacity, hdelivers⟩ := h
  exact ⟨q, by simp [hq, hne], hcapacity, hdelivers⟩

/-- What is done to the queue of the group itself. -/
theorem modify (h : Fills groups inner group content outcome)
    {f : Queue WorkerReply → Queue WorkerReply} {content' : List WorkerReply}
    {outcome' : Option SequenceEnd}
    (hf : ∀ q : Queue WorkerReply, q.capacity = none →
      q.Delivers (inner group) content outcome →
      (f q).capacity = none ∧ (f q).Delivers (inner group) content' outcome') :
    Fills (groups.modify group f) inner group content' outcome' := by
  obtain ⟨q, hq, hcapacity, hdelivers⟩ := h
  exact ⟨f q, by simp [hq], hf q hcapacity hdelivers⟩

/-- A reply goes in. -/
theorem push (h : Fills groups inner group content none) (reply : WorkerReply) :
    Fills (groups.modify group fun q => (q.send false (.item reply)).2) inner group
      (content ++ [reply]) none := by
  refine h.modify ?_
  intro q hcapacity hdelivers
  obtain ⟨hsend, hdelivers'⟩ := hdelivers.push (Queue.hasRoom_of_capacity_none hcapacity) reply
  rw [hsend]
  exact ⟨hcapacity, hdelivers'⟩

/-- The end goes in, and the writer goes. -/
theorem finish (h : Fills groups inner group content none) (o : SequenceEnd) :
    Fills ((groups.modify group fun q => (q.send false o.entry).2).modify group Queue.dropWriter)
      inner group content (some o) := by
  have hended : Fills (groups.modify group fun q => (q.send false o.entry).2) inner group content
      (some o) := by
    refine h.modify ?_
    intro q hcapacity hdelivers
    obtain ⟨hsend, hdelivers'⟩ := hdelivers.finish (Queue.hasRoom_of_capacity_none hcapacity) o
    rw [hsend]
    exact ⟨hcapacity, hdelivers'⟩
  exact hended.modify fun q hcapacity hdelivers => ⟨hcapacity, hdelivers.dropWriter⟩

/-- The queue of another group is opened. -/
theorem append (h : Fills groups inner group content outcome) (q : Queue WorkerReply) :
    Fills (groups ++ [q]) inner group content outcome := by
  obtain ⟨q', hq', hrest⟩ := h
  refine ⟨q', ?_, hrest⟩
  rw [List.getElem?_append_left (List.getElem?_eq_some_iff.1 hq').1, hq']

/-- The writers of all groups go. -/
theorem dropWriters {o : SequenceEnd} (h : Fills groups inner group content (some o)) :
    Fills (groups.map Queue.dropWriter) inner group content (some o) := by
  obtain ⟨q, hq, hcapacity, hdelivers⟩ := h
  exact ⟨q.dropWriter, by rw [List.getElem?_map, hq]; rfl, hcapacity, hdelivers.dropWriter⟩

/-- The caller reads from the queue of a group. -/
theorem recv (h : Fills groups inner group content outcome) {other : Nat} {q : Queue WorkerReply}
    (hq : groups[other]? = some q) :
    Fills (groups.set other (q.recv false).2)
      (fun k => if k = other then (inner k).record (q.recv false).1 else inner k) group content
      outcome := by
  obtain ⟨q', hq', hcapacity, hdelivers⟩ := h
  by_cases hk : group = other
  · subst hk
    cases hq.symm.trans hq'
    refine ⟨(q.recv false).2, List.getElem?_set_self (List.getElem?_eq_some_iff.1 hq).1, ?_, ?_⟩
    · rw [(q.recv_frame false).1, hcapacity]
    · simp only [if_true]
      exact hdelivers.recv
  · refine ⟨q', ?_, hcapacity, by simpa [hk] using hdelivers⟩
    rw [List.getElem?_set_ne (Ne.symm hk), hq']

end Fills

/-- Each part into which the replies were cut is in the queue of its group. A closed part ends
cleanly; the open part has the given end, if it has one yet. -/
structure Queued (groups : List (Queue WorkerReply)) (inner : Nat → Reading WorkerReply)
    (cut : Cut WorkerReply) (outcome : Option SequenceEnd) : Prop where
  closed : ∀ k part, cut.closed[k]? = some part → Fills groups inner k part (some (.ok ()))
  opened : cut.rest ≠ [] → Fills groups inner cut.closed.length cut.rest outcome

namespace Queued

variable {groups : List (Queue WorkerReply)} {inner : Nat → Reading WorkerReply}
  {cut : Cut WorkerReply} {outcome : Option SequenceEnd}

/-- What is done to the queue of the open group does not matter to the closed parts. -/
theorem closed_modify
    (h : ∀ k part, cut.closed[k]? = some part → Fills groups inner k part (some (.ok ())))
    (f : Queue WorkerReply → Queue WorkerReply) (k : Nat) (part : List WorkerReply)
    (hpart : cut.closed[k]? = some part) :
    Fills (groups.modify cut.closed.length f) inner k part (some (.ok ())) := by
  have hk := (List.getElem?_eq_some_iff.1 hpart).1
  exact (h k part hpart).modify_of_ne (by omega) f

/-- The open group takes one more reply, and is closed if the reply completes it. -/
theorem deliver {s : Splitter} (hcancelled : s.cancelled = false)
    (h : ∀ k part, cut.closed[k]? = some part → Fills s.groups inner k part (some (.ok ())))
    (hopen : Fills s.groups inner cut.closed.length cut.rest none) (reply : WorkerReply)
    (completes : Bool) :
    Queued (s.deliver cut.closed.length reply completes).groups inner (cut.push reply completes)
      none := by
  have hpushed := hopen.push reply
  cases completes with
  | false =>
    simp only [Splitter.deliver, Splitter.put, hcancelled, Bool.false_eq_true, if_false, Cut.push]
    exact ⟨closed_modify h _, fun _ => hpushed⟩
  | true =>
    simp only [Splitter.deliver, Splitter.put, Splitter.release, hcancelled, if_true, Cut.push]
    refine ⟨?_, fun hne => absurd rfl hne⟩
    intro k part hpart
    rcases Nat.lt_or_ge k cut.closed.length with hk | hk
    · rw [List.getElem?_append_left hk] at hpart
      exact closed_modify (closed_modify (closed_modify h _) _) _ k part hpart
    · rw [List.getElem?_append_right hk] at hpart
      obtain ⟨hlen, rfl⟩ := List.getElem?_eq_some_iff.1 hpart
      have hkn : k = cut.closed.length := by
        simp only [List.length_cons, List.length_nil] at hlen
        omega
      subst hkn
      have hdone := hpushed.finish (.ok ())
      simp only [SequenceEnd.entry] at hdone
      simpa using hdone

/-- The open group fails. -/
theorem fail {s : Splitter} (hcancelled : s.cancelled = false)
    (h : Queued s.groups inner cut none) (error : QueueError) :
    Queued ((s.put cut.closed.length (.fail error)).release cut.closed.length).groups inner cut
      (some (.error error)) := by
  simp only [Splitter.put, Splitter.release, hcancelled]
  refine ⟨closed_modify (closed_modify h.closed _) _, ?_⟩
  intro hne
  exact (h.opened hne).finish (.error error)

/-- Where no group is open, the end of the open group does not matter. -/
theorem of_rest_nil (h : Queued groups inner cut outcome) (hrest : cut.rest = [])
    (outcome' : Option SequenceEnd) : Queued groups inner cut outcome' :=
  ⟨h.closed, fun hne => absurd hrest hne⟩

/-- The writers of all groups go once every group has its end. -/
theorem dropWriters {o : SequenceEnd} (h : Queued groups inner cut (some o)) :
    Queued (groups.map Queue.dropWriter) inner cut (some o) :=
  ⟨fun k part hpart => (h.closed k part hpart).dropWriters, fun hne => (h.opened hne).dropWriters⟩

/-- The caller reads from the queue of a group. -/
theorem recv (h : Queued groups inner cut outcome) {group : Nat} {q : Queue WorkerReply}
    (hq : groups[group]? = some q) :
    Queued (groups.set group (q.recv false).2)
      (fun k => if k = group then (inner k).record (q.recv false).1 else inner k) cut outcome :=
  ⟨fun k part hpart => (h.closed k part hpart).recv hq, fun hne => (h.opened hne).recv hq⟩

end Queued

end Sidecar
