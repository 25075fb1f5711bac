import Sidecar.Proofs.Splitting.Demux
import Sidecar.Proofs.Splitting.Tracking

/-!
# The producer keeps to the plan

`Demux.Sound` is the invariant of a split and its caller. The replies that the producer has taken in
are the first ones that the `Tracker` accepts of the stream. Cut after each one that completes a
group, they are in the queues of the groups (`Demux.Ordered`), and each group was put into the outer
queue with its first reply (`Demux.Announced`). What else has to hold depends on what the producer
is doing (`Demux.Standing`). Every event keeps the invariant (`Demux.Sound.apply`), so it holds
after every schedule (`Demux.sound_run`).
-/

namespace Sidecar

/-! ## The announcement of groups -/

/-- Groups are announced in order: each under its number, and with the first reply of its part. -/
structure Announces (announced : List (Nat × WorkerReply)) (parts : List (List WorkerReply)) :
    Prop where
  length : announced.length = parts.length
  head : ∀ (k group : Nat) (first : WorkerReply), announced[k]? = some (group, first) →
    group = k ∧ ∃ part, parts[k]? = some part ∧ part.head? = some first

namespace Announces

variable {announced : List (Nat × WorkerReply)} {cut : Cut WorkerReply}

theorem nil : Announces [] [] := ⟨rfl, by simp⟩

/-- What was announced stays right when a part takes one more reply. -/
theorem head_push (h : Announces announced cut.parts) (reply : WorkerReply) (completes : Bool)
    {k group : Nat} {first : WorkerReply} (hk : announced[k]? = some (group, first)) :
    group = k ∧ ∃ part, (cut.push reply completes).parts[k]? = some part ∧
      part.head? = some first := by
  obtain ⟨hgroup, part, hpart, hhead⟩ := h.head k group first hk
  obtain ⟨part', hpart', more, rfl⟩ := Cut.getElem?_parts_push hpart reply completes
  refine ⟨hgroup, part ++ more, hpart', ?_⟩
  rw [List.head?_append, hhead]
  rfl

/-- The open group takes one more reply. -/
theorem continued (h : Announces announced cut.parts) (hrest : cut.rest ≠ [])
    (reply : WorkerReply) (completes : Bool) :
    Announces announced (cut.push reply completes).parts := by
  refine ⟨?_, fun k group first hk => h.head_push reply completes hk⟩
  rw [h.length, Cut.parts_push, Cut.parts_of_rest_ne_nil hrest]
  simp

/-- A group opens with its first reply. -/
theorem opened (h : Announces announced cut.parts) (hrest : cut.rest = []) (first : WorkerReply)
    (completes : Bool) :
    Announces (announced ++ [(cut.closed.length, first)]) (cut.push first completes).parts := by
  have hlength : announced.length = cut.closed.length := by
    rw [h.length, Cut.parts_of_rest_nil hrest]
  refine ⟨by simp [hlength, Cut.parts_push], ?_⟩
  intro k group first' hk
  rcases Nat.lt_or_ge k announced.length with hlt | hge
  · rw [List.getElem?_append_left hlt] at hk
    exact h.head_push first completes hk
  · rw [List.getElem?_append_right hge] at hk
    obtain ⟨hlen, heq⟩ := List.getElem?_eq_some_iff.1 hk
    have hk' : k = cut.closed.length := by
      simp only [List.length_cons, List.length_nil] at hlen
      omega
    subst hk'
    simp only [List.getElem_singleton, Prod.mk.injEq] at heq
    obtain ⟨rfl, rfl⟩ := heq
    exact ⟨rfl, [first], by simp [Cut.parts_push, hrest], rfl⟩

end Announces

/-! ## The invariant -/

namespace Demux

/-- Each part is in the queue of its group, and the caller has read nothing of a group that it was
not handed. Nothing arrives after the end of the stream. -/
structure Ordered (d : Demux) (cut : Cut WorkerReply) (verdict : Option SequenceEnd) : Prop where
  cancelled : d.split.cancelled = false
  ended : d.split.ended = true → d.input = []
  handedOut : d.split.handedOut = d.outer.got.length
  unread : ∀ k, d.outer.got.length ≤ k → d.inner k = .start
  queued : Queued d.split.groups d.inner cut verdict

/-- Each part was announced in the outer queue, which has one slot. -/
def Announced (d : Demux) (cut : Cut WorkerReply) (last : Option SequenceEnd) : Prop :=
  d.split.outer.capacity = some 1 ∧
    ∃ announced, Announces announced cut.parts ∧ d.split.outer.Delivers d.outer announced last

/-- The producer is reading. It writes to the queue of the open group, if there is one. -/
structure Reads (items : List (Except Cause WorkerReply)) (d : Demux)
    (taken : List (WorkerReply × Bool)) : Prop where
  groups : d.split.groups.length = (cutAfter taken).parts.length
  current : d.split.current =
    if (cutAfter taken).rest.isEmpty then none else some (cutAfter taken).closed.length
  opened : d.split.tracker.opened.isSome = !(cutAfter taken).rest.isEmpty
  accepting : Tracker.Accepting items taken d.split.tracker (d.split.arrived ++ d.input)

/-- The producer has a group to hand out. Its queue is new, and its first reply is still to be put
there. -/
structure Offers (items : List (Except Cause WorkerReply)) (d : Demux)
    (taken : List (WorkerReply × Bool)) (first : WorkerReply) (completes : Bool) : Prop where
  rest : (cutAfter taken).rest = []
  groups : d.split.groups.length = (cutAfter taken).closed.length + 1
  fresh : d.split.groups[(cutAfter taken).closed.length]? = some .unbounded
  opened : d.split.tracker.opened.isSome = !completes
  accepting : Tracker.Accepting items (taken ++ [(first, completes)]) d.split.tracker
    (d.split.arrived ++ d.input)

/-- The producer has come to the end of what it takes in. -/
def Concludes (items : List (Except Cause WorkerReply)) (taken : List (WorkerReply × Bool))
    (outcome : SequenceEnd) : Prop :=
  ∃ final, Tracker.start.accept items = (taken, final) ∧ Tracker.sequenceEnd final = outcome

/-- Where the producer stands: what the open group ends with, and what the outer queue does. -/
inductive Standing (items : List (Except Cause WorkerReply)) (d : Demux)
    (taken : List (WorkerReply × Bool)) : Option SequenceEnd → Option SequenceEnd → Prop where
  | reading (hphase : d.split.phase = .reading) (hreads : d.Reads items taken) :
    Standing items d taken none none
  | handing {first : WorkerReply} {completes : Bool}
    (hphase : d.split.phase = .handing (cutAfter taken).closed.length first completes)
    (hoffers : d.Offers items taken first completes) : Standing items d taken none none
  | ending {outcome : SequenceEnd} (hphase : d.split.phase = .ending)
    (hwaiting : d.split.outer.waiting = some outcome.entry)
    (hconcludes : Concludes items taken outcome) : Standing items d taken (some outcome) none
  | stopped {outcome : SequenceEnd} (hphase : d.split.phase = .stopped)
    (hconcludes : Concludes items taken outcome) :
    Standing items d taken (some outcome) (some outcome)

/-- The split has kept to the plan for the stream so far. -/
def Sound (items : List (Except Cause WorkerReply)) (d : Demux) : Prop :=
  ∃ taken verdict last, d.Ordered (cutAfter taken) verdict ∧ d.Announced (cutAfter taken) last ∧
    d.Standing items taken verdict last

end Demux

end Sidecar
