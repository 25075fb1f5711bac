import Sidecar.Proofs.Splitting.Finishing

/-!
# How far a split reads ahead

A producer that has found a new group puts it into the outer queue, which has one slot, before it
takes anything more off the stream. So besides the groups that the caller was handed there are never
more than two: one in the slot, and one that waits for it (`Splitter.Paced`). In the second case the
reply that begins the waiting group is the last one that was taken off the stream
(`EndsWithFirst`). This holds of every run, whatever arrives and whatever the caller does
(`LiveSplit.paced_run`).

What has been taken off the stream is not kept by the split. It is read off a run
(`LiveSplit.consumed`), and it is how the stream begins (`LiveSplit.consumed_append_arrived`).
-/

namespace Sidecar

/-! ## The groups of what was taken in -/

/-- The groups of a stream, each with its replies. The last one may not be complete. -/
def groupsOf (items : List (Except Cause WorkerReply)) : List (List WorkerReply) :=
  (cutAfter (Tracker.start.accept items).1).parts

/-- A stream ends with the first reply of its last group. -/
def EndsWithFirst (items : List (Except Cause WorkerReply)) : Prop :=
  ∃ before first, items = before ++ [.ok first] ∧ groupsOf items = groupsOf before ++ [[first]]

section
variable {items : List (Except Cause WorkerReply)} {taken : List (WorkerReply × Bool)}
  {tracker tracker' : Tracker} {reply : WorkerReply} {boundary : Boundary}

/-- One more reply is accepted. -/
theorem Tracker.accept_concat (h : Tracker.start.accept items = (taken, .ok tracker))
    (hobserve : tracker.observe reply = .ok (boundary, tracker')) :
    Tracker.start.accept (items ++ [.ok reply]) =
      (taken ++ [(reply, boundary.completes)], .ok tracker') := by
  rw [accept_append h]
  simp [accept, hobserve]

/-- What is refused belongs to no group, and nor does a failure. -/
theorem groupsOf_concat_of_error {item : Except Cause WorkerReply}
    (h : Tracker.start.accept items = (taken, .ok tracker))
    (hitem : (tracker.accept [item]).1 = []) : groupsOf (items ++ [item]) = groupsOf items := by
  simp [groupsOf, Tracker.accept_append h, hitem, h]

/-- A reply that is accepted begins a group where none is open, and belongs to the open group
otherwise. -/
theorem groupsOf_concat (h : Tracker.start.accept items = (taken, .ok tracker))
    (hobserve : tracker.observe reply = .ok (boundary, tracker')) :
    if boundary.starts then groupsOf (items ++ [.ok reply]) = groupsOf items ++ [[reply]]
    else (groupsOf (items ++ [.ok reply])).length = (groupsOf items).length := by
  have hopened : tracker.opened.isSome = !(cutAfter taken).rest.isEmpty :=
    (Tracker.accept_ok h .empty rfl).2
  have hparts : groupsOf (items ++ [.ok reply]) =
      (cutAfter taken).closed ++ [(cutAfter taken).rest ++ [reply]] := by
    rw [groupsOf, Tracker.accept_concat h hobserve, cutAfter_concat, Cut.parts_push]
  rw [(Tracker.observe_boundary hobserve).1, hparts, groupsOf, h]
  cases htag : tracker.opened with
  | none =>
    rw [htag] at hopened
    have hrest : (cutAfter taken).rest = [] := by simpa using hopened
    simp [Cut.parts_of_rest_nil hrest, hrest]
  | some tag =>
    rw [htag] at hopened
    have hrest : (cutAfter taken).rest ≠ [] := by simpa using hopened
    simp [Cut.parts_of_rest_ne_nil hrest]

end

/-! ## The pace of the producer -/

/-- Reading from a queue without an end takes at most its first item. -/
theorem Queue.recv_of_items {α : Type} {q : Queue α} {pending : List α}
    (hbuffer : q.buffer = pending.map .item) (stopped : Bool) :
    ∃ rest : List α, (q.recv stopped).2.buffer = rest.map .item ∧
      pending = (q.recv stopped).1.items ++ rest := by
  unfold recv
  split
  · exact ⟨pending, hbuffer, rfl⟩
  · split
    · exact ⟨pending, hbuffer, rfl⟩
    · rw [hbuffer]
      cases pending with
      | cons a rest => exact ⟨rest, rfl, rfl⟩
      | nil =>
        simp only [List.map_nil]
        split
        · exact ⟨[], rfl, rfl⟩
        · exact ⟨[], hbuffer, rfl⟩

namespace Splitter

variable {s s' : Splitter} {taken : List (Except Cause WorkerReply)} {offered : Nat}

/-- A producer that goes on has accepted all that it has taken off the stream. Besides the groups
that were handed out there are those in the slot of the outer queue, and those it has to offer. -/
structure Leads (s : Splitter) (taken : List (Except Cause WorkerReply)) (offered : Nat) :
    Prop where
  slot : s.outer.capacity = some 1
  queued : ∃ pending : List (Nat × WorkerReply), s.outer.buffer = pending.map .item ∧
    pending.length ≤ 1 ∧ s.groups.length ≤ s.handedOut + pending.length + offered
  accepts : ∃ replies, Tracker.start.accept taken = (replies, .ok s.tracker)

/-- The groups of what was taken off the stream are open or done with. At most two of them were not
handed out, and if there are two, the second has only begun. -/
structure Paced (s : Splitter) (taken : List (Except Cause WorkerReply)) : Prop where
  opened : (groupsOf taken).length = s.groups.length
  ahead : s.groups.length ≤ s.handedOut + 2
  last : s.groups.length = s.handedOut + 2 → EndsWithFirst taken
  reading : s.phase = .reading → s.Leads taken 0
  handing : ∀ group first completes, s.phase = .handing group first completes → s.Leads taken 1

/-- What a producer that goes on has to offer is the second group that was not handed out, at
most. -/
theorem Leads.ahead (h : s.Leads taken offered) : s.groups.length ≤ s.handedOut + 1 + offered := by
  obtain ⟨pending, -, hslot, hle⟩ := h.queued
  omega

namespace Paced

/-- Nothing has been taken off the stream. -/
theorem start : Splitter.start.Paced [] where
  opened := rfl
  ahead := Nat.zero_le _
  last := nofun
  reading _ := ⟨rfl, ⟨[], rfl, Nat.zero_le _, Nat.le_refl _⟩, ⟨[], rfl⟩⟩
  handing := nofun

/-- What happens to the queues of the groups, or to what arrives, does not matter. -/
theorem congr (h : s.Paced taken) (hgroups : s'.groups.length = s.groups.length)
    (hhanded : s'.handedOut = s.handedOut) (houter : s'.outer = s.outer)
    (htracker : s'.tracker = s.tracker) (hphase : s'.phase = s.phase) : s'.Paced taken := by
  have hleads {offered : Nat} (hlead : s.Leads taken offered) : s'.Leads taken offered := by
    refine ⟨houter ▸ hlead.slot, ?_, htracker ▸ hlead.accepts⟩
    rw [houter, hgroups, hhanded]
    exact hlead.queued
  refine ⟨hgroups ▸ h.opened, ?_, ?_, ?_, ?_⟩
  · rw [hgroups, hhanded]
    exact h.ahead
  · rw [hgroups, hhanded]
    exact h.last
  · exact fun hp => hleads (h.reading (hphase ▸ hp))
  · exact fun group first completes hp => hleads (h.handing group first completes (hphase ▸ hp))

/-- A producer that takes nothing in any more leaves the groups as they are. -/
theorem of_resting (hrests : s'.phase = .ending ∨ s'.phase = .stopped)
    (hgroups : s'.groups.length = s.groups.length) (hhanded : s'.handedOut = s.handedOut)
    (hopened : (groupsOf taken).length = s.groups.length)
    (hahead : s.groups.length ≤ s.handedOut + 2)
    (hlast : s.groups.length = s.handedOut + 2 → EndsWithFirst taken) : s'.Paced taken := by
  refine ⟨hopened.trans hgroups.symm, ?_, ?_, fun hp => ?_, fun _ _ _ hp => ?_⟩
  · rw [hgroups, hhanded]
    exact hahead
  · rw [hgroups, hhanded]
    exact hlast
  · rcases hrests with hrests | hrests <;> cases hp.symm.trans hrests
  · rcases hrests with hrests | hrests <;> cases hp.symm.trans hrests

/-- The producer goes away. -/
theorem halt (hopened : (groupsOf taken).length = s.groups.length)
    (hahead : s.groups.length ≤ s.handedOut + 2)
    (hlast : s.groups.length = s.handedOut + 2 → EndsWithFirst taken)
    (outer : Queue (Nat × WorkerReply)) : { s with outer }.halt.Paced taken :=
  of_resting (.inr rfl) (List.length_map ..) rfl hopened hahead hlast

/-- A reply goes to the open group. -/
theorem deliver (h : s.Paced taken) (group : Nat) (reply : WorkerReply) (completes : Bool) :
    (s.deliver group reply completes).Paced taken := by
  have hlength := s.length_groups_deliver group reply completes
  rw [deliver_eq] at hlength ⊢
  exact h.congr hlength rfl rfl rfl rfl

/-- The outer queue ends. Nothing is waiting for its slot then but the end. -/
theorem conclude (hopened : (groupsOf taken).length = s.groups.length)
    (hahead : s.groups.length ≤ s.handedOut + 1) (entry : Entry (Nat × WorkerReply)) :
    (s.conclude entry).Paced taken := by
  have hlast (htwo : s.groups.length = s.handedOut + 2) : EndsWithFirst taken := by omega
  unfold Splitter.conclude
  split
  · exact of_resting (.inl rfl) rfl rfl hopened (Nat.le_succ_of_le hahead) hlast
  · exact halt hopened (Nat.le_succ_of_le hahead) hlast _

/-- The open group fails, and the outer queue. -/
theorem failBoth (hopened : (groupsOf taken).length = s.groups.length)
    (hahead : s.groups.length ≤ s.handedOut + 1) (error : QueueError) :
    (s.failBoth error).Paced taken := by
  unfold Splitter.failBoth
  cases s.current with
  | none => exact conclude hopened hahead _
  | some group =>
    have hlength : ((s.put group (.fail error)).release group).groups.length = s.groups.length := by
      simp [put, release]
    exact conclude (s := (s.put group (.fail error)).release group)
      (hopened.trans hlength.symm) (Nat.le_trans (Nat.le_of_eq hlength) hahead) _

/-- The stream ends. -/
theorem takeEnd (hopened : (groupsOf taken).length = s.groups.length)
    (hahead : s.groups.length ≤ s.handedOut + 1) : s.takeEnd.Paced taken := by
  unfold Splitter.takeEnd
  split
  · exact failBoth hopened hahead _
  · exact conclude hopened hahead _

/-- A group is handed out, or waits for the slot. -/
theorem handOut (h : s.Leads taken 1) (hopened : (groupsOf taken).length = s.groups.length)
    (hlast : s.groups.length = s.handedOut + 2 → EndsWithFirst taken) (group : Nat)
    (first : WorkerReply) (completes : Bool) (waiting : Option (Entry (Nat × WorkerReply))) :
    (s.handOut group first completes
      (Queue.send { s.outer with waiting } s.cancelled (.item (group, first)))).Paced taken := by
  unfold Queue.send
  split
  · exact halt hopened h.ahead hlast _
  · split
    · exact halt hopened h.ahead hlast _
    · obtain ⟨pending, hbuffer, hslot, hle⟩ := h.queued
      split
      next hroom =>
        -- The slot is free, so all other groups were handed out.
        have hnil : pending = [] := by
          simpa [Queue.hasRoom, h.slot, hbuffer] using hroom
        subst hnil
        let outer : Queue (Nat × WorkerReply) :=
          { s.outer with buffer := s.outer.buffer ++ [.item (group, first)], waiting }
        have hlead : { s with outer, phase := .reading }.Leads taken 0 :=
          ⟨h.slot, ⟨[(group, first)], by simp [outer, hbuffer], Nat.le_refl _, hle⟩, h.accepts⟩
        exact deliver (s := { s with outer, phase := .reading })
          ⟨hopened, h.ahead, hlast, fun _ => hlead, fun _ _ _ hp => by cases hp⟩ group first
          completes
      next =>
        exact ⟨hopened, h.ahead, hlast, fun hp => (by cases hp),
          fun _ _ _ _ => ⟨h.slot, ⟨pending, hbuffer, hslot, hle⟩, h.accepts⟩⟩

/-- A reply is taken in. -/
theorem takeIn (h : s.Paced taken) (hphase : s.phase = .reading) (reply : WorkerReply) :
    (s.takeIn reply).Paced (taken ++ [.ok reply]) := by
  have hlead := h.reading hphase
  obtain ⟨replies, haccept⟩ := hlead.accepts
  unfold Splitter.takeIn
  cases hobserve : s.tracker.observe reply with
  | error violation =>
    have hsame : groupsOf (taken ++ [.ok reply]) = groupsOf taken :=
      groupsOf_concat_of_error haccept (by simp [Tracker.accept, hobserve])
    exact failBoth (hsame ▸ h.opened) hlead.ahead _
  | ok result =>
    obtain ⟨boundary, tracker⟩ := result
    have haccepts := Tracker.accept_concat haccept hobserve
    have hgroups := groupsOf_concat haccept hobserve
    cases hstarts : boundary.starts with
    | true =>
      simp only [hstarts, if_true] at hgroups ⊢
      have hopened : (groupsOf (taken ++ [.ok reply])).length =
          (s.groups ++ [Queue.unbounded]).length := by
        rw [hgroups, List.length_append, List.length_append, h.opened]
        rfl
      refine handOut (s := { s with tracker, groups := s.groups ++ [Queue.unbounded] })
        ⟨hlead.slot, ?_, _, haccepts⟩ hopened
        (fun _ => ⟨taken, reply, rfl, hgroups⟩) s.groups.length reply boundary.completes
        s.outer.waiting
      obtain ⟨pending, hbuffer, hslot, hle⟩ := hlead.queued
      refine ⟨pending, hbuffer, hslot, ?_⟩
      rw [List.length_append]
      exact Nat.add_le_add_right hle 1
    | false =>
      simp only [hstarts, Bool.false_eq_true, if_false] at hgroups ⊢
      have hkept : Splitter.Paced { s with tracker } (taken ++ [.ok reply]) := by
        have hahead := hlead.ahead
        refine ⟨hgroups.trans h.opened, h.ahead, fun hlast => ?_,
          fun _ => ⟨hlead.slot, hlead.queued, _, haccepts⟩, fun _ _ _ hother => ?_⟩
        · simp only at hlast
          omega
        · cases hphase.symm.trans hother
      split
      · exact hkept.deliver _ _ _
      · exact hkept

/-- The caller drops the groups. -/
theorem dropGroups (h : s.Paced taken) : s.dropGroups.Paced taken :=
  of_resting (s := s) (.inr rfl) (by simp [Splitter.dropGroups, Splitter.halt]) rfl h.opened
    h.ahead h.last

/-- The caller asks for the next group. If there is one, it has left the slot. -/
theorem nextGroup (h : s.Paced taken) : s.nextGroup.2.Paced taken := by
  have hahead := h.ahead
  rw [nextGroup_eq_recv]
  have hleads {offered : Nat} (hlead : s.Leads taken offered) :
      Leads { s with
        outer := (s.outer.recv s.cancelled).2
        handedOut := s.handedOut + (s.outer.recv s.cancelled).1.items.length } taken offered := by
    obtain ⟨pending, hbuffer, hslot, hle⟩ := hlead.queued
    obtain ⟨rest, hrest, rfl⟩ := Queue.recv_of_items hbuffer s.cancelled
    rw [List.length_append] at hslot hle
    exact ⟨(s.outer.recv_frame s.cancelled).1.trans hlead.slot,
      ⟨rest, hrest, by omega, by simp only; omega⟩, hlead.accepts⟩
  refine ⟨h.opened, by simp only; omega, fun hlast => h.last ?_, fun hp => hleads (h.reading hp),
    fun group first completes hp => hleads (h.handing group first completes hp)⟩
  simp only at hlast
  omega

end Paced

/-! ## What is taken off the stream -/

/-- What the producer takes off the stream with its next step. -/
def nextTaken (s : Splitter) : List (Except Cause WorkerReply) :=
  match s.step with
  | none => []
  | some s' => s.arrived.take (s.arrived.length - s'.arrived.length)

/-- A step takes off what is missing afterwards. -/
theorem nextTaken_eq (hstep : s.step = some s') (h : s.arrived = taken ++ s'.arrived) :
    s.nextTaken = taken := by
  simp [nextTaken, hstep, h]

/-- A step hands nothing out, and takes what it takes from the front. -/
theorem arrived_of_step (hstep : s.step = some s') :
    s.arrived = s.nextTaken ++ s'.arrived ∧ s'.handedOut = s.handedOut := by
  obtain ⟨taken, rest, harrived, hspares⟩ := spares_of_step hstep
  have hrest : s'.arrived = rest := hspares.arrived
  rw [← hrest] at harrived
  exact ⟨(nextTaken_eq hstep harrived).symm ▸ harrived, hspares.handedOut⟩

/-- Every step of the producer keeps the pace. -/
theorem Paced.step (h : s.Paced taken) (hstep : s.step = some s') :
    s'.Paced (taken ++ s.nextTaken) := by
  have hnone (hrest : s'.arrived = s.arrived) : s.nextTaken = [] := nextTaken_eq hstep hrest.symm
  cases steps_of_step hstep with
  | halt =>
    rw [hnone rfl, List.append_nil]
    exact halt h.opened h.ahead h.last s.outer
  | conclude =>
    rw [hnone rfl, List.append_nil]
    exact halt h.opened h.ahead h.last _
  | @takeIn reply rest hphase harrived =>
    have hrest := (Spares.takeIn { s with arrived := rest } reply).arrived
    have htaken : s.nextTaken = [.ok reply] := nextTaken_eq hstep (by rw [hrest, harrived]; rfl)
    rw [htaken]
    exact takeIn (s := { s with arrived := rest }) (h.congr rfl rfl rfl rfl rfl) hphase reply
  | @failBoth cause rest hphase harrived =>
    have hrest := (Spares.failBoth { s with arrived := rest } (broken cause)).arrived
    have htaken : s.nextTaken = [.error cause] := nextTaken_eq hstep (by rw [hrest, harrived]; rfl)
    rw [htaken]
    obtain ⟨replies, haccept⟩ := (h.reading hphase).accepts
    have hsame : groupsOf (taken ++ [.error cause]) = groupsOf taken :=
      groupsOf_concat_of_error haccept rfl
    exact failBoth (s := { s with arrived := rest }) (hsame ▸ h.opened) (h.reading hphase).ahead _
  | takeEnd hphase =>
    rw [hnone (Spares.takeEnd s).arrived, List.append_nil]
    exact takeEnd h.opened (h.reading hphase).ahead
  | @handOut group first completes hphase =>
    rw [hnone (Spares.handOut s _ _ _ _).arrived, List.append_nil]
    exact handOut (h.handing _ _ _ hphase) h.opened h.last group first completes none

end Splitter

namespace LiveSplit

variable {d : LiveSplit} {taken : List (Except Cause WorkerReply)}

/-- What an event takes off the stream. Only the producer's steps do. -/
def takes (d : LiveSplit) : LiveEvent → List (Except Cause WorkerReply)
  | .step => d.split.nextTaken
  | .arrive _ | .finish | .cancel | .dropGroups | .dropGroup _ | .nextGroup | .recv _ => []

/-- What is taken off the stream in the course of some events. -/
def consumed (d : LiveSplit) : List LiveEvent → List (Except Cause WorkerReply)
  | [] => []
  | e :: es => d.takes e ++ (d.apply e).consumed es

/-! ## Runs -/

/-- Every event keeps the pace. -/
theorem paced_apply (h : d.split.Paced taken) (e : LiveEvent) :
    (d.apply e).split.Paced (taken ++ d.takes e) := by
  cases e with
  | step =>
    simp only [takes, apply]
    cases hstep : d.split.step with
    | none =>
      have hnone : d.split.nextTaken = [] := by simp [Splitter.nextTaken, hstep]
      rw [hnone, List.append_nil]
      exact h
    | some split => exact h.step hstep
  | arrive item =>
    rw [takes, List.append_nil]
    simp only [apply, Splitter.arrive_eq]
    exact h.congr rfl rfl rfl rfl rfl
  | finish | cancel =>
    rw [takes, List.append_nil]
    exact h.congr rfl rfl rfl rfl rfl
  | dropGroups =>
    rw [takes, List.append_nil]
    exact h.dropGroups
  | dropGroup k =>
    rw [takes, List.append_nil]
    simp only [apply, Splitter.dropGroup]
    split
    · exact h.congr (List.length_modify ..) rfl rfl rfl rfl
    · exact h
  | nextGroup =>
    rw [takes, List.append_nil]
    simp only [apply]
    split
    · exact h
    · exact h.nextGroup
  | recv k =>
    rw [takes, List.append_nil, apply_recv]
    split
    · exact h
    · exact h.congr List.length_set rfl rfl rfl rfl

/-- Every run keeps the pace. -/
theorem paced_run (h : d.split.Paced taken) (es : List LiveEvent) :
    (d.run es).split.Paced (taken ++ d.consumed es) := by
  induction es generalizing d taken with
  | nil => simpa [consumed] using h
  | cons e es ih =>
    rw [consumed, ← List.append_assoc]
    exact ih (paced_apply h e)

/-- The split counts the groups that the caller got. -/
theorem handedOut_run (h : d.split.handedOut = d.handed.got.length) (es : List LiveEvent) :
    (d.run es).split.handedOut = (d.run es).handed.got.length := by
  induction es generalizing d with
  | nil => exact h
  | cons e es ih =>
    refine ih ?_
    cases e with
    | arrive item =>
      simp only [apply, Splitter.arrive_eq]
      exact h
    | finish | cancel | dropGroups => exact h
    | step =>
      simp only [apply]
      cases hstep : d.split.step with
      | none => exact h
      | some split => exact (Splitter.arrived_of_step hstep).2.trans h
    | dropGroup k =>
      simp only [apply, Splitter.dropGroup]
      split <;> exact h
    | nextGroup =>
      simp only [apply]
      split
      · exact h
      · rw [Splitter.nextGroup_eq_recv]
        simp only [handed, Reading.of_hear, Reading.got_record, List.length_append]
        rw [h]
        rfl
    | recv k =>
      rw [apply_recv]
      split <;> exact h

/-- A producer that takes a step has not stopped before. -/
theorem isOpen_of_step {s s' : Splitter} (hstep : s.step = some s') (hopen : s'.isOpen = true) :
    s.isOpen = true := by
  have hended := Splitter.ended_of_step hstep
  cases hphase : s.phase with
  | stopped =>
    rw [Splitter.step_of_stopped hphase] at hstep
    cases hstep
  | reading | handing | ending => simp_all [Splitter.isOpen]

/-- What an event takes, what then waits, and what is still to arrive make up what has waited and
was to arrive, unless the event keeps the rest from arriving. -/
theorem takes_append_arrived (d : LiveSplit) (e : LiveEvent) (es : List LiveEvent) :
    d.takes e ++ ((d.apply e).split.arrived ++
        if (d.apply e).split.isOpen then arrivals es else []) <+:
      d.split.arrived ++ if d.split.isOpen then arrivals (e :: es) else [] := by
  cases e with
  | arrive item =>
    simp only [takes, apply, Splitter.arrive_eq, List.nil_append]
    show (if d.split.isOpen then d.split.arrived ++ [item] else d.split.arrived) ++
      (if d.split.isOpen then arrivals es else []) <+: _
    split
    · rw [List.append_assoc]
      exact List.prefix_rfl
    · exact List.prefix_rfl
  | finish =>
    have hclosed : (d.apply .finish).split.isOpen = false := by
      simp [apply, Splitter.finish, Splitter.isOpen]
    rw [hclosed, if_neg Bool.false_ne_true, List.append_nil]
    exact List.prefix_append _ _
  | dropGroups =>
    have hclosed : (d.apply .dropGroups).split.isOpen = false := rfl
    rw [hclosed, if_neg Bool.false_ne_true, List.append_nil]
    exact List.prefix_append _ _
  | step =>
    cases hstep : d.split.step with
    | none =>
      have hsame : d.apply .step = d := by simp [apply, hstep]
      have hnone : d.takes .step = [] := by simp [takes, Splitter.nextTaken, hstep]
      rw [hsame, hnone]
      exact List.prefix_rfl
    | some split =>
      have happly : (d.apply .step).split = split := by simp [apply, hstep]
      rw [happly, (Splitter.arrived_of_step hstep).1, List.append_assoc]
      refine (List.prefix_append_right_inj _).2 ((List.prefix_append_right_inj _).2 ?_)
      cases hopen : split.isOpen with
      | false => exact List.nil_prefix
      | true =>
        rw [isOpen_of_step hstep hopen]
        exact List.prefix_rfl
  | cancel => exact List.prefix_rfl
  | dropGroup k =>
    simp only [apply, Splitter.dropGroup]
    split <;> exact List.prefix_rfl
  | nextGroup =>
    simp only [apply]
    split
    · exact List.prefix_rfl
    · rw [Splitter.nextGroup_eq_recv]
      exact List.prefix_rfl
  | recv k =>
    rw [apply_recv]
    split <;> exact List.prefix_rfl

/-- What was taken off the stream, and what waits to be, is how the stream begins. Nothing arrives
any more once the producer has stopped or the stream has ended. -/
theorem consumed_append_arrived (d : LiveSplit) (es : List LiveEvent) :
    d.consumed es ++ (d.run es).split.arrived <+:
      d.split.arrived ++ if d.split.isOpen then arrivals es else [] := by
  induction es generalizing d with
  | nil => simp [consumed, arrivals]
  | cons e es ih =>
    rw [consumed, run_cons, List.append_assoc]
    exact ((List.prefix_append_right_inj _).2 (ih (d.apply e))).trans (d.takes_append_arrived e es)

/-! ## The guarantee -/

/-- **Readers are apart, and the split is at most two groups ahead.** Two callers that take the
groups of a split in the same way, but read them late, in part or not at all, are answered the same
whenever they ask for the next group. As long as nobody cancels the split, what they read of a group
agrees, and if both have come to its end they have got the same replies and the same end. So it is
for callers to whom the same arrives on other schedules, as long as neither of them stops its split;
they are handed the same groups, in the same order and with the same end.

A caller can always go on until nothing happens any more. If the stream has ended then, and nobody
has stopped the split, everything was read that is planned for the stream but for the groups that
were dropped, whatever was done with those.

At most two groups were opened that the caller did not get. If there are two, the reply that begins
the second one is the last that was taken off the stream. What was taken off is how the stream
begins, and its groups are the ones that were opened. -/
theorem readers_independent_ahead_bounded (es : List LiveEvent) :
    let d := start.run es
    (∀ es', es'.filter LiveEvent.isShared = es.filter LiveEvent.isShared →
      let d' := start.run es'
      d'.outer = d.outer ∧ (LiveEvent.cancel ∉ es → ∀ k, (d.read k).Agrees (d'.read k))) ∧
    (∀ es', arrivals es' = arrivals es →
      LiveEvent.cancel ∉ es → LiveEvent.dropGroups ∉ es →
      LiveEvent.cancel ∉ es' → LiveEvent.dropGroups ∉ es' →
      let d' := start.run es'
      d.handed.Agrees d'.handed ∧ ∀ k, (d.read k).Agrees (d'.read k)) ∧
    (∃ more : List LiveEvent, (∀ e ∈ more, e.isReading = true) ∧ (d.run more).Idle) ∧
    (LiveEvent.finish ∈ es → LiveEvent.cancel ∉ es → LiveEvent.dropGroups ∉ es → d.Idle →
      d.Finished (SplitPlan.of (arrivals es)) fun k => LiveEvent.dropGroup k ∈ es) ∧
    start.consumed es ++ d.split.arrived <+: arrivals es ∧
    (groupsOf (start.consumed es)).length = d.split.groups.length ∧
    d.split.groups.length ≤ d.handed.got.length + 2 ∧
    (d.split.groups.length = d.handed.got.length + 2 → EndsWithFirst (start.consumed es)) := by
  intro d
  have hpaced : d.split.Paced ([] ++ start.consumed es) := paced_run .start es
  have hhanded : d.split.handedOut = d.handed.got.length := handedOut_run rfl es
  refine ⟨?_, ?_, d.exists_idle, finished_run, consumed_append_arrived start es, hpaced.opened,
    ?_, ?_⟩
  · exact fun es' hshared =>
      ⟨outer_eq_of_shared hshared, fun hcancel => agree_of_shared hcancel hshared⟩
  · exact fun es' harrivals hcancel hdrop hcancel' hdrop' =>
      agree_of_arrivals hcancel hdrop hcancel' hdrop' harrivals
  · rw [← hhanded]
    exact hpaced.ahead
  · rw [← hhanded]
    exact hpaced.last

/-- Two groups are open that nobody was handed, and the reply after them is not taken in. -/
example (third : WorkerReply) :
    let first := WorkerReply.ofKind "a" (.output (some (.data ⟨[1], true⟩)))
    let second := WorkerReply.ofKind "b" (.output (some (.data ⟨[2], true⟩)))
    let es := [.arrive (.ok first), .arrive (.ok second), .arrive (.ok third), .step, .step, .step]
    (start.run es).split.groups.length = 2 ∧ start.consumed es = [.ok first, .ok second] :=
  ⟨rfl, rfl⟩

end LiveSplit

end Sidecar
