import Sidecar.Proofs.Splitting.Producer

/-!
# Every event keeps the invariant

The steps of the producer are taken apart by the operations they are made of: a reply is delivered
to the open group (`Demux.Sound.deliver`), a group is handed out (`Demux.Sound.handOut`), the outer
queue ends (`Demux.Sound.conclude`), with the open group failing before that if there is one
(`Demux.Sound.failBoth`).
-/

namespace Sidecar

namespace Splitter

/-- A producer that is not cancelled and is reading takes what has arrived, and then the end. -/
theorem step_of_reading {s : Splitter} (hphase : s.phase = .reading)
    (hcancelled : s.cancelled = false) :
    s.step =
      match s.arrived with
      | .ok reply :: rest => some ({ s with arrived := rest }.takeIn reply)
      | .error cause :: rest => some ({ s with arrived := rest }.failBoth (broken cause))
      | [] => if s.ended then some s.takeEnd else none := by
  cases s
  cases hphase
  cases hcancelled
  rfl

/-- A producer that is not cancelled hands its group out once there is room. -/
theorem step_of_handing {s : Splitter} {group : Nat} {first : WorkerReply} {completes : Bool}
    (hphase : s.phase = .handing group first completes) (hcancelled : s.cancelled = false) :
    s.step =
      if s.outer.hasRoom then
        some (s.handOut group first completes (s.outer.resume s.cancelled (.item (group, first))))
      else none := by
  cases s
  cases hphase
  cases hcancelled
  rfl

/-- A producer that is not cancelled puts its end into the outer queue once there is room. -/
theorem step_of_ending {s : Splitter} {entry : Entry (Nat × WorkerReply)}
    (hphase : s.phase = .ending) (hcancelled : s.cancelled = false)
    (hwaiting : s.outer.waiting = some entry) :
    s.step =
      if s.outer.hasRoom then some { s with outer := (s.outer.resume s.cancelled entry).2 }.halt
      else none := by
  obtain ⟨arrived, ended, cancelled, tracker, phase, outer, groups, current, handedOut⟩ := s
  obtain ⟨capacity, buffer, waiting, writerGone, readerGone, finished⟩ := outer
  cases hphase
  cases hcancelled
  cases hwaiting
  rfl

/-- A producer that has stopped takes no step. -/
theorem step_of_stopped {s : Splitter} (hphase : s.phase = .stopped) : s.step = none := by
  cases s
  cases hphase
  rfl

/-- What a step of the producer comes to: it goes away; it takes in what has arrived, or the end of
the stream; it hands out the group it was waiting with; or it puts in the end it was waiting
with. -/
inductive Steps (s : Splitter) : Splitter → Prop where
  | halt (hphase : s.phase ≠ .stopped) : Steps s s.halt
  | takeIn {reply : WorkerReply} {rest : List (Except Cause WorkerReply)}
    (hphase : s.phase = .reading) (harrived : s.arrived = .ok reply :: rest) :
    Steps s ({ s with arrived := rest }.takeIn reply)
  | failBoth {cause : Cause} {rest : List (Except Cause WorkerReply)}
    (hphase : s.phase = .reading) (harrived : s.arrived = .error cause :: rest) :
    Steps s ({ s with arrived := rest }.failBoth (broken cause))
  | takeEnd (hphase : s.phase = .reading) (hended : s.ended = true) : Steps s s.takeEnd
  | handOut {group : Nat} {first : WorkerReply} {completes : Bool}
    (hphase : s.phase = .handing group first completes) (hroom : s.outer.hasRoom = true) :
    Steps s
      (s.handOut group first completes (s.outer.resume s.cancelled (.item (group, first))))
  | conclude {entry : Entry (Nat × WorkerReply)} (hphase : s.phase = .ending)
    (hwaiting : s.outer.waiting = some entry) :
    Steps s { s with outer := (s.outer.resume s.cancelled entry).2 }.halt

theorem steps_of_step {s s' : Splitter} (h : s.step = some s') : s.Steps s' := by
  unfold step at h
  split at h
  next => cases h
  next hphase =>
    split at h
    next =>
      cases h
      exact .halt (by simp [hphase])
    next =>
      split at h
      next reply rest harrived =>
        cases h
        exact .takeIn hphase harrived
      next cause rest harrived =>
        cases h
        exact .failBoth hphase harrived
      next =>
        split at h
        next hended =>
          cases h
          exact .takeEnd hphase hended
        next => cases h
  next group first completes hphase =>
    split at h
    next =>
      cases h
      exact .halt (by simp [hphase])
    next =>
      split at h
      next hroom =>
        cases h
        exact .handOut hphase hroom
      next => cases h
  next hphase =>
    split at h
    next =>
      cases h
      exact .halt (by simp [hphase])
    next =>
      split at h
      next entry hwaiting =>
        split at h
        next =>
          cases h
          exact .conclude hphase hwaiting
        next => cases h
      next =>
        cases h
        exact .halt (by simp [hphase])

/-- Delivering touches only the queues of the groups, and which of them is written. -/
theorem deliver_eq (s : Splitter) (group : Nat) (reply : WorkerReply) (completes : Bool) :
    s.deliver group reply completes =
      { s with
        groups := (s.deliver group reply completes).groups
        current := if completes then none else some group } := by
  cases completes <;> rfl

@[simp] theorem length_groups_deliver (s : Splitter) (group : Nat) (reply : WorkerReply)
    (completes : Bool) : (s.deliver group reply completes).groups.length = s.groups.length := by
  cases completes <;> simp [deliver, put, release]

/-- Asking for the next group reads from the outer queue, and counts the group if there is one. -/
theorem nextGroup_eq_recv (s : Splitter) :
    s.nextGroup =
      ((s.outer.recv s.cancelled).1,
        { s with
          outer := (s.outer.recv s.cancelled).2
          handedOut := s.handedOut + (s.outer.recv s.cancelled).1.items.length }) := by
  unfold nextGroup
  obtain ⟨received, outer⟩ := s.outer.recv s.cancelled
  cases received <;> rfl

/-- As long as the split is not cancelled, the queue is read like that. -/
theorem nextGroup_eq {s : Splitter} (hcancelled : s.cancelled = false) :
    s.nextGroup =
      ((s.outer.recv false).1,
        { s with
          outer := (s.outer.recv false).2
          handedOut := s.handedOut + (s.outer.recv false).1.items.length }) := by
  rw [nextGroup_eq_recv, hcancelled]

/-- A group that was handed out can be read as long as its reader is there. -/
theorem recv_of_handedOut {s : Splitter} {group : Nat} {q : Queue WorkerReply}
    (hcancelled : s.cancelled = false) (hgroup : group < s.handedOut)
    (hq : s.groups[group]? = some q) (hreader : q.readerGone = false) :
    s.recv group =
      some ((q.recv false).1, { s with groups := s.groups.set group (q.recv false).2 }) := by
  have hfound : s.group? group = some q := by simp [group?, hgroup, hq, hreader]
  simp only [recv, hfound, hcancelled, Option.map_some]

/-- Only a group that was handed out can be read. -/
theorem recv_eq_some {s s' : Splitter} {group : Nat} {received : Received WorkerReply}
    (h : s.recv group = some (received, s')) :
    ∃ q, group < s.handedOut ∧ s.groups[group]? = some q ∧
      received = (q.recv s.cancelled).1 ∧
      s' = { s with groups := s.groups.set group (q.recv s.cancelled).2 } := by
  unfold recv at h
  obtain ⟨q, hq, hrecv⟩ := Option.map_eq_some_iff.1 h
  unfold group? at hq
  split at hq
  next hgroup =>
    obtain ⟨hq, -⟩ := Option.filter_eq_some_iff.1 hq
    simp only [Prod.mk.injEq] at hrecv
    exact ⟨q, hgroup, hq, hrecv.1.symm, hrecv.2.symm⟩
  next => cases hq

end Splitter

namespace Demux

variable {items : List (Except Cause WorkerReply)} {d : Demux}
  {taken : List (WorkerReply × Bool)}

/-- No more groups were handed out than there are parts. -/
theorem Announced.length_got_le {cut : Cut WorkerReply} {last : Option SequenceEnd}
    (h : d.Announced cut last) : d.outer.got.length ≤ cut.parts.length := by
  obtain ⟨-, announced, hannounces, hdelivers⟩ := h
  rw [← hannounces.length]
  exact hdelivers.got_prefix.length_le

/-! ## The producer -/

namespace Sound

/-- A reply goes to the open group. -/
theorem deliver {reply : WorkerReply} {completes : Bool} (h : d.Ordered (cutAfter taken) none)
    (hphase : d.split.phase = .reading)
    (hgroups : d.split.groups.length = (cutAfter taken).closed.length + 1)
    (hopen : Fills d.split.groups d.inner (cutAfter taken).closed.length (cutAfter taken).rest none)
    (hannounced : d.Announced (cutAfter (taken ++ [(reply, completes)])) none)
    (hopened : d.split.tracker.opened.isSome = !completes)
    (haccepting : Tracker.Accepting items (taken ++ [(reply, completes)]) d.split.tracker
      (d.split.arrived ++ d.input)) :
    Sound items
      { d with split := d.split.deliver (cutAfter taken).closed.length reply completes } := by
  have hqueued := Queued.deliver h.cancelled h.queued.closed hopen reply completes
  rw [← cutAfter_concat] at hqueued
  have hlength := Splitter.length_groups_deliver d.split (cutAfter taken).closed.length reply
    completes
  rw [Splitter.deliver_eq]
  refine ⟨taken ++ [(reply, completes)], none, none,
    ⟨h.cancelled, h.ended, h.handedOut, h.unread, hqueued⟩, hannounced, .reading hphase ?_⟩
  refine ⟨?_, ?_, ?_, haccepting⟩
  · simp [hlength, hgroups, cutAfter_concat, Cut.parts_push]
  · cases completes <;> simp [cutAfter_concat, Cut.push]
  · cases completes <;> simp [cutAfter_concat, Cut.push, hopened]

/-- The outer queue ends, at once or when there is room for it. -/
theorem conclude {outcome : SequenceEnd} (h : d.Ordered (cutAfter taken) (some outcome))
    (hannounced : d.Announced (cutAfter taken) none) (hconcludes : Concludes items taken outcome) :
    Sound items { d with split := d.split.conclude outcome.entry } := by
  obtain ⟨hslot, announced, hannounces, hdelivers⟩ := hannounced
  unfold Splitter.conclude
  cases hroom : d.split.outer.hasRoom with
  | true =>
    obtain ⟨hsend, hended⟩ := hdelivers.finish hroom outcome
    rw [← h.cancelled] at hsend
    rw [hsend]
    exact ⟨taken, some outcome, some outcome,
      ⟨h.cancelled, h.ended, h.handedOut, h.unread, h.queued.dropWriters⟩,
      ⟨hslot, announced, hannounces, hended.dropWriter⟩, .stopped rfl hconcludes⟩
  | false =>
    have hsend := Queue.send_of_full hdelivers.reader hroom outcome.entry
    rw [← h.cancelled] at hsend
    rw [hsend]
    exact ⟨taken, some outcome, none, ⟨h.cancelled, h.ended, h.handedOut, h.unread, h.queued⟩,
      ⟨hslot, announced, hannounces, hdelivers.setWaiting _⟩, .ending rfl rfl hconcludes⟩

/-- The open group fails, if there is one, and the outer queue fails. -/
theorem failBoth {error : QueueError} (h : d.Ordered (cutAfter taken) none)
    (hannounced : d.Announced (cutAfter taken) none) 
    (hcurrent : d.split.current =
      if (cutAfter taken).rest.isEmpty then none else some (cutAfter taken).closed.length)
    (hconcludes : Concludes items taken (.error error)) :
    Sound items { d with split := d.split.failBoth error } := by
  unfold Splitter.failBoth
  by_cases hrest : (cutAfter taken).rest = []
  · rw [hcurrent, hrest]
    exact conclude
      ⟨h.cancelled, h.ended, h.handedOut, h.unread, h.queued.of_rest_nil hrest _⟩ hannounced
      hconcludes
  · have hempty : (cutAfter taken).rest.isEmpty = false := by simpa using hrest
    rw [hcurrent, hempty]
    have hqueued := h.queued.fail h.cancelled error
    generalize (cutAfter taken).closed.length = group at hqueued ⊢
    exact conclude (d := { d with split := (d.split.put group (.fail error)).release group })
      ⟨h.cancelled, h.ended, h.handedOut, h.unread, hqueued⟩ hannounced
      hconcludes

/-- A group is handed out, at once or when there is room for it. -/
theorem handOut {first : WorkerReply} {completes : Bool} (h : d.Ordered (cutAfter taken) none)
    (hannounced : d.Announced (cutAfter taken) none)
    (hoffers : d.Offers items taken first completes)
    (waiting : Option (Entry (Nat × WorkerReply))) :
    Sound items
      { d with
        split := d.split.handOut (cutAfter taken).closed.length first completes
          (Queue.send { d.split.outer with waiting } d.split.cancelled
            (.item ((cutAfter taken).closed.length, first))) } := by
  have hle := hannounced.length_got_le
  rw [Cut.parts_of_rest_nil hoffers.rest] at hle
  obtain ⟨hslot, announced, hannounces, hdelivers⟩ := hannounced
  have hdelivers' := hdelivers.setWaiting waiting
  unfold Splitter.handOut
  cases hroom : Queue.hasRoom { d.split.outer with waiting } with
  | true =>
    obtain ⟨hsend, hmore⟩ := hdelivers'.push hroom ((cutAfter taken).closed.length, first)
    rw [← h.cancelled] at hsend
    rw [hsend]
    have hopen : Fills d.split.groups d.inner (cutAfter taken).closed.length
        (cutAfter taken).rest none := by
      refine ⟨.unbounded, hoffers.fresh, rfl, ?_⟩
      rw [h.unread _ hle, hoffers.rest]
      exact Queue.Delivers.unbounded
    have hopened := hannounces.opened hoffers.rest first completes
    rw [← cutAfter_concat] at hopened
    exact deliver (d := { d with split := { d.split with outer := _, phase := .reading } })
      ⟨h.cancelled, h.ended, h.handedOut, h.unread, h.queued⟩ rfl hoffers.groups hopen
      ⟨hslot, _, hopened, hmore⟩ hoffers.opened hoffers.accepting
  | false =>
    have hsend := Queue.send_of_full hdelivers'.reader hroom
      (.item ((cutAfter taken).closed.length, first))
    rw [← h.cancelled] at hsend
    rw [hsend]
    exact ⟨taken, none, none, ⟨h.cancelled, h.ended, h.handedOut, h.unread, h.queued⟩,
      ⟨hslot, announced, hannounces, hdelivers.setWaiting _⟩, .handing rfl
        ⟨hoffers.rest, hoffers.groups, hoffers.fresh, hoffers.opened, hoffers.accepting⟩⟩

/-- A reply is taken in. -/
theorem takeIn {reply : WorkerReply} {rest : List (Except Cause WorkerReply)}
    (h : d.Ordered (cutAfter taken) none) (hannounced : d.Announced (cutAfter taken) none)
    (hphase : d.split.phase = .reading) (hreads : d.Reads items taken)
    (harrived : d.split.arrived = .ok reply :: rest) :
    Sound items { d with split := { d.split with arrived := rest }.takeIn reply } := by
  have haccepting := hreads.accepting
  rw [harrived, List.cons_append] at haccepting
  unfold Splitter.takeIn
  cases hobserve : d.split.tracker.observe reply with
  | error violation =>
    exact failBoth (d := { d with split := { d.split with arrived := rest } })
      ⟨h.cancelled, h.ended, h.handedOut, h.unread, h.queued⟩ hannounced hreads.current
      ⟨_, haccepting.refused hobserve, rfl⟩
  | ok result =>
    obtain ⟨boundary, tracker⟩ := result
    obtain ⟨hstarts, hopened⟩ := Tracker.observe_boundary hobserve
    have haccepting' := haccepting.snoc hobserve
    by_cases hrest : (cutAfter taken).rest = []
    · have hnone : boundary.starts = true := by
        have := hreads.opened
        simp [hrest] at this
        simp [hstarts, this]
      have hgroups : d.split.groups.length = (cutAfter taken).closed.length := by
        rw [hreads.groups, Cut.parts_of_rest_nil hrest]
      simp only [hnone, if_true]
      rw [hgroups]
      refine handOut (d := { d with
        split := { d.split with
          arrived := rest
          tracker := tracker
          groups := d.split.groups ++ [Queue.unbounded] } }) ?_ hannounced ?_ _
      · exact ⟨h.cancelled, h.ended, h.handedOut, h.unread,
          fun k part hpart => (h.queued.closed k part hpart).append _,
          fun hne => absurd hrest hne⟩
      · exact ⟨hrest, by simp [hgroups], by simp [← hgroups], hopened, haccepting'⟩
    · have hempty : (cutAfter taken).rest.isEmpty = false := by simpa using hrest
      have hsome : boundary.starts = false := by
        have := hreads.opened
        rw [hempty] at this
        rw [hstarts, ← Option.not_isSome, this]
        rfl
      have hcurrent : d.split.current = some (cutAfter taken).closed.length := by
        rw [hreads.current, hempty]
        rfl
      simp only [hsome, hcurrent, Bool.false_eq_true, if_false]
      refine deliver (d := { d with split := { d.split with arrived := rest, tracker := tracker } })
        ⟨h.cancelled, h.ended, h.handedOut, h.unread, h.queued⟩ hphase ?_ (h.queued.opened hrest)
        ?_ hopened haccepting'
      · rw [hreads.groups, Cut.parts_of_rest_ne_nil hrest]
        simp
      · obtain ⟨hslot, announced, hannounces, hdelivers⟩ := hannounced
        have hcontinued := hannounces.continued hrest reply boundary.completes
        rw [← cutAfter_concat] at hcontinued
        exact ⟨hslot, announced, hcontinued, hdelivers⟩

/-- The stream has ended, and nothing that arrived is left. -/
theorem takeEnd (h : d.Ordered (cutAfter taken) none)
    (hannounced : d.Announced (cutAfter taken) none) (hreads : d.Reads items taken)
    (harrived : d.split.arrived = []) (hended : d.split.ended = true) :
    Sound items { d with split := d.split.takeEnd } := by
  have haccepting := hreads.accepting
  rw [harrived, h.ended hended] at haccepting
  unfold Splitter.takeEnd
  cases hopened : d.split.tracker.opened with
  | some tag =>
    refine failBoth h hannounced hreads.current ⟨_, haccepting.ended, ?_⟩
    simp [Tracker.sequenceEnd, hopened]
  | none =>
    have hrest : (cutAfter taken).rest = [] := by
      have := hreads.opened
      simpa [hopened] using this
    have hordered : d.Ordered (cutAfter taken) (some (.ok ())) :=
      ⟨h.cancelled, h.ended, h.handedOut, h.unread, h.queued.of_rest_nil hrest _⟩
    refine conclude hordered hannounced ⟨_, haccepting.ended, ?_⟩
    simp [Tracker.sequenceEnd, hopened]

/-- The producer takes its next step. -/
theorem step (h : Sound items d) {split : Splitter} (hstep : d.split.step = some split) :
    Sound items { d with split } := by
  obtain ⟨taken, verdict, last, hordered, hannounced, hstanding⟩ := h
  cases hstanding with
  | reading hphase hreads =>
    rw [Splitter.step_of_reading hphase hordered.cancelled] at hstep
    split at hstep
    next reply rest harrived =>
      cases hstep
      exact takeIn hordered hannounced hphase hreads harrived
    next cause rest harrived =>
      cases hstep
      have haccepting := hreads.accepting
      rw [harrived, List.cons_append] at haccepting
      exact failBoth (d := { d with split := { d.split with arrived := rest } })
        ⟨hordered.cancelled, hordered.ended, hordered.handedOut, hordered.unread,
          hordered.queued⟩ hannounced hreads.current ⟨_, haccepting.broken, rfl⟩
    next harrived =>
      cases hended : d.split.ended with
      | false => simp [hended] at hstep
      | true =>
        simp only [hended, if_true, Option.some.injEq] at hstep
        subst hstep
        exact takeEnd hordered hannounced hreads harrived hended
  | handing hphase hoffers =>
    rw [Splitter.step_of_handing hphase hordered.cancelled] at hstep
    split at hstep
    next hroom =>
      cases hstep
      exact handOut hordered hannounced hoffers none
    next => cases hstep
  | ending hphase hwaiting hconcludes =>
    rw [Splitter.step_of_ending hphase hordered.cancelled hwaiting] at hstep
    split at hstep
    next hroom =>
      cases hstep
      obtain ⟨hslot, announced, hannounces, hdelivers⟩ := hannounced
      obtain ⟨hsend, hended⟩ := (hdelivers.setWaiting none).finish hroom _
      rw [← hordered.cancelled] at hsend
      rw [Queue.resume, hsend]
      exact ⟨taken, _, _,
        ⟨hordered.cancelled, hordered.ended, hordered.handedOut, hordered.unread,
          hordered.queued.dropWriters⟩,
        ⟨hslot, announced, hannounces, hended.dropWriter⟩, .stopped rfl hconcludes⟩
    next => cases hstep
  | stopped hphase hconcludes =>
    rw [Splitter.step_of_stopped hphase] at hstep
    cases hstep

/-! ## The stream -/

/-- The stream ends. -/
theorem finish (h : Sound items d) (hinput : d.input = []) :
    Sound items { d with split := d.split.finish } := by
  obtain ⟨taken, verdict, last, hordered, hannounced, hstanding⟩ := h
  refine ⟨taken, verdict, last,
    ⟨hordered.cancelled, fun _ => hinput, hordered.handedOut, hordered.unread, hordered.queued⟩,
    hannounced, ?_⟩
  cases hstanding with
  | reading hphase hreads =>
    exact .reading hphase ⟨hreads.groups, hreads.current, hreads.opened, hreads.accepting⟩
  | handing hphase hoffers =>
    exact .handing hphase
      ⟨hoffers.rest, hoffers.groups, hoffers.fresh, hoffers.opened, hoffers.accepting⟩
  | ending hphase hwaiting hconcludes => exact .ending hphase hwaiting hconcludes
  | stopped hphase hconcludes => exact .stopped hphase hconcludes

/-- The next element of the stream arrives. A producer that has stopped drops it. -/
theorem arrive (h : Sound items d) {item : Except Cause WorkerReply}
    {rest : List (Except Cause WorkerReply)} (hinput : d.input = item :: rest) :
    Sound items { d with input := rest, split := d.split.arrive item } := by
  obtain ⟨taken, verdict, last, hordered, hannounced, hstanding⟩ := h
  have hended : d.split.ended = false := by
    cases hended : d.split.ended with
    | false => rfl
    | true =>
      have := hordered.ended hended
      rw [hinput] at this
      cases this
  have hleft : (d.split.arrived ++ [item]) ++ rest = d.split.arrived ++ d.input := by
    rw [hinput, List.append_assoc]
    rfl
  have hnever : d.split.ended = true → rest = [] := by simp [hended]
  unfold Splitter.arrive
  by_cases hphase : d.split.phase = .stopped
  · have hclosed : ¬ d.split.isOpen = true := by simp [Splitter.isOpen, hphase]
    rw [if_neg hclosed]
    refine ⟨taken, verdict, last,
      ⟨hordered.cancelled, hnever, hordered.handedOut, hordered.unread, hordered.queued⟩,
      hannounced, ?_⟩
    cases hstanding with
    | reading hother | handing hother | ending hother => cases hother.symm.trans hphase
    | stopped _ hconcludes => exact .stopped hphase hconcludes
  · have hopen : d.split.isOpen = true := by simp [Splitter.isOpen, hphase, hended]
    rw [if_pos hopen]
    refine ⟨taken, verdict, last,
      ⟨hordered.cancelled, hnever, hordered.handedOut, hordered.unread, hordered.queued⟩,
      hannounced, ?_⟩
    cases hstanding with
    | reading hphase hreads =>
      refine .reading hphase ⟨hreads.groups, hreads.current, hreads.opened, ?_⟩
      rw [hleft]
      exact hreads.accepting
    | handing hphase hoffers =>
      refine .handing hphase ⟨hoffers.rest, hoffers.groups, hoffers.fresh, hoffers.opened, ?_⟩
      rw [hleft]
      exact hoffers.accepting
    | ending hphase hwaiting hconcludes => exact .ending hphase hwaiting hconcludes
    | stopped hstopped => exact absurd hstopped hphase

/-! ## The caller -/

/-- The caller asks for the next group. -/
theorem nextGroup (h : Sound items d) : Sound items (d.apply .nextGroup) := by
  obtain ⟨taken, verdict, last, hordered, ⟨hslot, announced, hannounces, hdelivers⟩,
    hstanding⟩ := h
  obtain ⟨hcapacity, hwait, -, -⟩ := d.split.outer.recv_frame false
  simp only [Demux.apply, Splitter.nextGroup_eq hordered.cancelled]
  have hlength := congrArg List.length (d.outer.got_record (d.split.outer.recv false).1)
  rw [List.length_append] at hlength
  refine ⟨taken, verdict, last, ⟨hordered.cancelled, hordered.ended, ?_, ?_,
    hordered.queued⟩, ⟨hcapacity.trans hslot, announced, hannounces, hdelivers.recv⟩, ?_⟩
  · simp only
    rw [hlength, hordered.handedOut]
  · intro k hk
    simp only at hk
    exact hordered.unread k (by omega)
  · cases hstanding with
    | reading hphase hreads =>
      exact .reading hphase ⟨hreads.groups, hreads.current, hreads.opened, hreads.accepting⟩
    | handing hphase hoffers =>
      exact .handing hphase
        ⟨hoffers.rest, hoffers.groups, hoffers.fresh, hoffers.opened, hoffers.accepting⟩
    | ending hphase hwaiting hconcludes =>
      exact .ending hphase (hwait.trans hwaiting) hconcludes
    | stopped hphase hconcludes => exact .stopped hphase hconcludes

/-- The caller asks for the next reply of a group. -/
theorem recv (h : Sound items d) (group : Nat) : Sound items (d.apply (.recv group)) := by
  simp only [Demux.apply]
  split
  next => exact h
  next received split hrecv =>
    obtain ⟨taken, verdict, last, hordered, hannounced, hstanding⟩ := h
    obtain ⟨q, hgroup, hq, rfl, rfl⟩ := Splitter.recv_eq_some hrecv
    rw [hordered.cancelled]
    refine ⟨taken, verdict, last, ⟨rfl, hordered.ended, hordered.handedOut,
      ?_, hordered.queued.recv hq⟩, hannounced, ?_⟩
    · intro k hk
      have hne : k ≠ group := by
        have := hordered.handedOut
        simp only at hk
        omega
      simp only [hne, if_false]
      exact hordered.unread k hk
    · cases hstanding with
      | reading hphase hreads =>
        exact .reading hphase
          ⟨by simpa using hreads.groups, hreads.current, hreads.opened, hreads.accepting⟩
      | handing hphase hoffers =>
        have hne : group ≠ (cutAfter taken).closed.length := by
          have hle := hannounced.length_got_le
          rw [Cut.parts_of_rest_nil hoffers.rest] at hle
          have := hordered.handedOut
          omega
        refine .handing hphase ⟨hoffers.rest, by simpa using hoffers.groups, ?_, hoffers.opened,
          hoffers.accepting⟩
        simp only
        rw [List.getElem?_set_ne hne, hoffers.fresh]
      | ending hphase hwaiting hconcludes => exact .ending hphase hwaiting hconcludes
      | stopped hphase hconcludes => exact .stopped hphase hconcludes

/-- Every event keeps the invariant. -/
theorem apply (h : Sound items d) (e : DemuxEvent) : Sound items (d.apply e) := by
  cases e with
  | arrive =>
    simp only [Demux.apply]
    split
    next hinput => exact h.finish hinput
    next item rest hinput => exact h.arrive hinput
  | step =>
    simp only [Demux.apply]
    split
    next => exact h
    next split hstep => exact h.step hstep
  | nextGroup => exact h.nextGroup
  | recv group => exact h.recv group

end Sound

/-- It holds of a split of which nothing has arrived. -/
theorem sound_start (items : List (Except Cause WorkerReply)) : Sound items (start items) := by
  refine ⟨[], none, none, ⟨rfl, nofun, rfl, fun _ _ => rfl, ?_⟩,
    ⟨rfl, [], .nil, Queue.Delivers.bounded 1⟩,
    .reading rfl ⟨rfl, rfl, rfl, Tracker.Accepting.start items⟩⟩
  exact ⟨by simp [cutAfter, Cut.empty], fun hne => absurd rfl hne⟩

/-- The invariant holds after every schedule. -/
theorem sound_run (items : List (Except Cause WorkerReply)) (es : List DemuxEvent) :
    Sound items ((start items).run es) := by
  suffices h : ∀ d, Sound items d → Sound items (d.run es) from h _ (sound_start items)
  induction es with
  | nil => exact fun _ h => h
  | cons e es ih => exact fun d h => ih _ (h.apply e)

end Demux

end Sidecar
