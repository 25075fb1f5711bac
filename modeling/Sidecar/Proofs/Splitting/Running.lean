import Sidecar.Proofs.Splitting.LiveSplit
import Sidecar.Proofs.Splitting.Mirroring

/-!
# As long as nothing stops the split

Until a split is cancelled and its caller has dropped the groups, it goes on as if no single group
was dropped either, and so what was proved of a `Demux` holds of what its readers have heard
(`LiveSplit.Live`).
-/

namespace Sidecar

namespace Splitter

/-! ## The open group -/

/-- The producer has a group that it writes to only while it reads the stream, and only while the
tracker has a group open. The group it is about to hand out is open to the tracker unless its first
reply completes it. -/
structure Focused (s : Splitter) : Prop where
  reading : s.current ≠ none → s.phase = .reading ∧ s.tracker.opened.isSome
  handing : ∀ (group : Nat) (first : WorkerReply) (completes : Bool),
    s.phase = .handing group first completes → s.tracker.opened.isSome = !completes

namespace Focused

variable {s : Splitter}

/-- A producer that is not reading has no open group. -/
theorem current_eq_none_of_phase (h : s.Focused) (hphase : s.phase ≠ .reading) :
    s.current = none := by
  cases hcurrent : s.current with
  | none => rfl
  | some group => exact absurd (h.reading (by simp [hcurrent])).1 hphase

/-- Where the tracker has no group open, nor has the producer. -/
theorem current_eq_none_of_tracker (h : s.Focused) (hopened : s.tracker.opened = none) :
    s.current = none := by
  cases hcurrent : s.current with
  | none => rfl
  | some group =>
    have hsome := (h.reading (by simp [hcurrent])).2
    rw [hopened] at hsome
    cases hsome

/-- A producer that has put its end into the outer queue, or waits to do so, has no open group. -/
theorem conclude (hcurrent : s.current = none) (entry : Entry (Nat × WorkerReply)) :
    (s.conclude entry).Focused := by
  unfold Splitter.conclude
  split
  next => exact ⟨fun hne => absurd hcurrent hne, nofun⟩
  next => exact ⟨fun hne => absurd rfl hne, nofun⟩

/-- Failing gives the open group up. -/
theorem failBoth (s : Splitter) (error : QueueError) : (s.failBoth error).Focused := by
  unfold Splitter.failBoth
  cases hcurrent : s.current with
  | none => exact conclude hcurrent _
  | some group => exact conclude (s := (s.put group (.fail error)).release group) rfl _

/-- A reply that does not complete its group leaves it open. -/
theorem deliver (hphase : s.phase = .reading) {completes : Bool}
    (hopened : s.tracker.opened.isSome = !completes) (group : Nat) (reply : WorkerReply) :
    (s.deliver group reply completes).Focused := by
  rw [deliver_eq]
  refine ⟨?_, fun _ _ _ hother => nomatch hphase.symm.trans hother⟩
  intro hne
  cases completes with
  | true => exact absurd rfl hne
  | false => exact ⟨hphase, hopened⟩

/-- A group that is handed out is the open one, unless its first reply completes it. -/
theorem handOut (hcurrent : s.current = none) {completes : Bool}
    (hopened : s.tracker.opened.isSome = !completes) (group : Nat) (first : WorkerReply)
    (outcome : Sent × Queue (Nat × WorkerReply)) :
    (s.handOut group first completes outcome).Focused := by
  obtain ⟨sent, outer⟩ := outcome
  cases sent with
  | landed => exact deliver (s := { s with outer, phase := .reading }) rfl hopened _ _
  | suspended =>
    refine ⟨fun hne => absurd hcurrent hne, ?_⟩
    rintro group first completes ⟨⟩
    exact hopened
  | refused error => exact ⟨fun hne => absurd rfl hne, nofun⟩

/-- A reply is taken in. One that starts a group comes while none is open. -/
theorem takeIn (h : s.Focused) (hphase : s.phase = .reading) (reply : WorkerReply) :
    (s.takeIn reply).Focused := by
  unfold Splitter.takeIn
  cases hobserve : s.tracker.observe reply with
  | error violation => exact failBoth _ _
  | ok result =>
    obtain ⟨⟨starts, completes⟩, tracker⟩ := result
    obtain ⟨hstarts, hopened⟩ := Tracker.observe_boundary hobserve
    simp only at hstarts hopened ⊢
    cases starts with
    | true =>
      have hnone : s.tracker.opened = none := Option.isNone_iff_eq_none.1 hstarts.symm
      exact handOut (s := { s with tracker := tracker, groups := s.groups ++ [Queue.unbounded] })
        (h.current_eq_none_of_tracker hnone) hopened _ _ _
    | false =>
      simp only [Bool.false_eq_true, if_false]
      split
      next group _ => exact deliver (s := { s with tracker := tracker }) hphase hopened _ _
      next hcurrent =>
        exact ⟨fun hne => absurd hcurrent hne, fun _ _ _ hother => nomatch hphase.symm.trans hother⟩

/-- The stream has ended. -/
theorem takeEnd (h : s.Focused) : s.takeEnd.Focused := by
  unfold Splitter.takeEnd
  cases hopened : s.tracker.opened with
  | some tag => exact failBoth _ _
  | none =>
    exact conclude (h.current_eq_none_of_tracker hopened) _

/-- A producer that stops has no open group. -/
theorem halt (s : Splitter) : s.halt.Focused := ⟨fun hne => absurd rfl hne, nofun⟩

/-- Every step keeps it that way. -/
theorem step (h : s.Focused) {s' : Splitter} (hstep : s.step = some s') : s'.Focused := by
  cases steps_of_step hstep with
  | halt => exact halt s
  | @takeIn reply rest hphase =>
    exact takeIn (s := { s with arrived := rest }) ⟨h.reading, h.handing⟩ hphase reply
  | failBoth => exact failBoth _ _
  | takeEnd => exact h.takeEnd
  | handOut hphase =>
    have hcurrent := h.current_eq_none_of_phase (by simp [hphase])
    exact handOut hcurrent (h.handing _ _ _ hphase) _ _ _
  | conclude => exact halt _

end Focused

end Splitter

/-! ## While nothing stops the split -/

namespace Splitter

/-- What arrives touches nothing but what has arrived. -/
theorem arrive_eq (s : Splitter) (item : Except Cause WorkerReply) :
    s.arrive item =
      { s with arrived := if s.isOpen then s.arrived ++ [item] else s.arrived } := by
  unfold arrive
  split <;> rfl

/-- What is done to a queue keeps its reader. -/
theorem map_readerGone_modify (groups : List (Queue WorkerReply)) (group : Nat)
    {f : Queue WorkerReply → Queue WorkerReply} (hf : ∀ q, (f q).readerGone = q.readerGone) :
    (groups.modify group f).map Queue.readerGone = groups.map Queue.readerGone := by
  refine List.ext_getElem? fun k => ?_
  rw [List.getElem?_map, List.getElem?_modify, List.getElem?_map]
  cases groups[k]? with
  | none => rfl
  | some q =>
    split
    · exact congrArg some (hf q)
    · rfl

/-- What the producer leaves alone when it puts something into its queues: what is still to be taken
in, whether more of it can come, how many groups the caller was handed, and who reads them. Groups
that are added have a reader. -/
structure Spares (s s' : Splitter) : Prop where
  arrived : s'.arrived = s.arrived
  ended : s'.ended = s.ended
  handedOut : s'.handedOut = s.handedOut
  readers : ∃ n, s'.groups.map Queue.readerGone =
    s.groups.map Queue.readerGone ++ List.replicate n false

namespace Spares

variable {s s' s'' : Splitter}

theorem of_readers (harrived : s'.arrived = s.arrived) (hended : s'.ended = s.ended)
    (hhanded : s'.handedOut = s.handedOut)
    (hreaders : s'.groups.map Queue.readerGone = s.groups.map Queue.readerGone) : s.Spares s' :=
  ⟨harrived, hended, hhanded, 0, by rw [hreaders, List.replicate_zero, List.append_nil]⟩

theorem refl (s : Splitter) : s.Spares s := of_readers rfl rfl rfl rfl

theorem trans (h : s.Spares s') (h' : s'.Spares s'') : s.Spares s'' := by
  obtain ⟨n, hn⟩ := h.readers
  obtain ⟨m, hm⟩ := h'.readers
  refine ⟨h'.arrived.trans h.arrived, h'.ended.trans h.ended, h'.handedOut.trans h.handedOut,
    n + m, ?_⟩
  rw [hm, hn, List.append_assoc, List.replicate_append_replicate]

/-- A reader that is gone has gone before. -/
theorem reader (h : s.Spares s') {k : Nat} {q' : Queue WorkerReply}
    (hq' : s'.groups[k]? = some q') (hgone : q'.readerGone = true) :
    ∃ q, s.groups[k]? = some q ∧ q.readerGone = true := by
  obtain ⟨n, hn⟩ := h.readers
  have hk : (s.groups.map Queue.readerGone ++ List.replicate n false)[k]? = some true := by
    rw [← hn, List.getElem?_map, hq', Option.map_some, hgone]
  rcases Nat.lt_or_ge k (s.groups.map Queue.readerGone).length with hlt | hle
  · rw [List.getElem?_append_left hlt, List.getElem?_map] at hk
    obtain ⟨q, hq, hreader⟩ := Option.map_eq_some_iff.1 hk
    exact ⟨q, hq, hreader⟩
  · rw [List.getElem?_append_right hle] at hk
    cases List.eq_of_mem_replicate (List.mem_of_getElem? hk)

theorem put (s : Splitter) (group : Nat) (entry : Entry WorkerReply) :
    s.Spares (s.put group entry) :=
  of_readers rfl rfl rfl (map_readerGone_modify _ _ fun q => q.readerGone_send _ _)

theorem release (s : Splitter) (group : Nat) : s.Spares (s.release group) :=
  of_readers rfl rfl rfl (map_readerGone_modify _ _ fun _ => rfl)

theorem halt (s : Splitter) : s.Spares s.halt :=
  of_readers rfl rfl rfl (by simp [Splitter.halt, Function.comp_def, Queue.dropWriter])

theorem deliver (s : Splitter) (group : Nat) (reply : WorkerReply) (completes : Bool) :
    s.Spares (s.deliver group reply completes) := by
  have hput := put s group (.item reply)
  cases completes with
  | true => exact (hput.trans (put _ group .close)).trans (release _ group)
  | false => exact ⟨hput.arrived, hput.ended, hput.handedOut, hput.readers⟩

theorem conclude (s : Splitter) (entry : Entry (Nat × WorkerReply)) :
    s.Spares (s.conclude entry) := by
  have houter (outer : Queue (Nat × WorkerReply)) : s.Spares { s with outer } :=
    of_readers rfl rfl rfl rfl
  unfold Splitter.conclude
  split
  · exact of_readers rfl rfl rfl rfl
  · exact (houter _).trans (halt _)

theorem failBoth (s : Splitter) (error : QueueError) : s.Spares (s.failBoth error) := by
  unfold Splitter.failBoth
  cases s.current with
  | none => exact conclude s _
  | some group => exact ((put s group _).trans (release _ group)).trans (conclude _ _)

theorem handOut (s : Splitter) (group : Nat) (first : WorkerReply) (completes : Bool)
    (outcome : Sent × Queue (Nat × WorkerReply)) :
    s.Spares (s.handOut group first completes outcome) := by
  have houter (phase : SplitPhase) : s.Spares { s with outer := outcome.2, phase } :=
    of_readers rfl rfl rfl rfl
  obtain ⟨sent, outer⟩ := outcome
  cases sent with
  | landed => exact (houter .reading).trans (deliver _ _ _ _)
  | suspended => exact houter _
  | refused error => exact (houter s.phase).trans (halt _)

theorem takeIn (s : Splitter) (reply : WorkerReply) : s.Spares (s.takeIn reply) := by
  unfold Splitter.takeIn
  split
  · exact failBoth s _
  next boundary tracker _ =>
    have htracker : s.Spares { s with tracker } := of_readers rfl rfl rfl rfl
    have hopened : s.Spares { s with tracker, groups := s.groups ++ [Queue.unbounded] } :=
      ⟨rfl, rfl, rfl, 1, by simp [Queue.unbounded]⟩
    simp only
    split
    · exact hopened.trans (handOut _ _ _ _ _)
    · split
      · exact htracker.trans (deliver _ _ _ _)
      · exact htracker

theorem takeEnd (s : Splitter) : s.Spares s.takeEnd := by
  unfold Splitter.takeEnd
  split
  · exact failBoth s _
  · exact conclude s _

end Spares

/-- A step takes something off the stream, or nothing, and leaves the rest alone. -/
theorem spares_of_step {s s' : Splitter} (hstep : s.step = some s') :
    ∃ taken rest, s.arrived = taken ++ rest ∧ { s with arrived := rest }.Spares s' := by
  cases steps_of_step hstep with
  | halt => exact ⟨[], _, rfl, .halt s⟩
  | @takeIn reply rest _ harrived =>
    exact ⟨[.ok reply], rest, harrived, .takeIn { s with arrived := rest } reply⟩
  | @failBoth cause rest _ harrived =>
    exact ⟨[.error cause], rest, harrived, .failBoth { s with arrived := rest } _⟩
  | takeEnd => exact ⟨[], _, rfl, .takeEnd s⟩
  | handOut => exact ⟨[], _, rfl, .handOut s _ _ _ _⟩
  | @conclude entry =>
    have houter : s.Spares { s with outer := (s.outer.resume s.cancelled entry).2 } :=
      .of_readers rfl rfl rfl rfl
    exact ⟨[], _, rfl, houter.trans (.halt _)⟩

/-- The producer does not decide whether the stream has ended. -/
theorem ended_of_step {s s' : Splitter} (hstep : s.step = some s') : s'.ended = s.ended := by
  obtain ⟨_, _, _, hspares⟩ := spares_of_step hstep
  exact hspares.ended

end Splitter

/-- The stream that is to be expected from now on. If it does not end in the course of the events,
something more of it is to come afterwards. -/
def expected (later : List (Except Cause WorkerReply)) :
    List LiveEvent → List (Except Cause WorkerReply)
  | [] => later
  | .arrive item :: es => item :: expected later es
  | .finish :: _ => []
  | _ :: es => expected later es

/-- Nothing more is to be expected after the end of the stream. -/
theorem expected_of_finish (later : List (Except Cause WorkerReply)) {es : List LiveEvent}
    (h : LiveEvent.finish ∈ es) : expected later es = arrivals es := by
  induction es with
  | nil => cases h
  | cons e es ih =>
    cases e with
    | finish => rfl
    | arrive item => exact congrArg (item :: ·) (ih (by simpa using h))
    | step | cancel | dropGroups | dropGroup | nextGroup | recv => exact ih (by simpa using h)

/-- A stream that does not end goes on afterwards. -/
theorem expected_of_not_finish (later : List (Except Cause WorkerReply)) {es : List LiveEvent}
    (h : LiveEvent.finish ∉ es) : expected later es = arrivals es ++ later := by
  induction es with
  | nil => rfl
  | cons e es ih =>
    cases e with
    | finish => exact absurd (List.mem_cons_self ..) h
    | arrive item => exact congrArg (item :: ·) (ih (by simpa using h))
    | step | cancel | dropGroups | dropGroup | nextGroup | recv => exact ih (by simpa using h)

theorem expected_nil (es : List LiveEvent) : expected [] es = arrivals es := by
  by_cases h : LiveEvent.finish ∈ es
  · exact expected_of_finish [] h
  · rw [expected_of_not_finish [] h, List.append_nil]

namespace LiveSplit

variable {items later : List (Except Cause WorkerReply)} {d : LiveSplit} {es : List LiveEvent}

/-- The split of a caller that has dropped no group: it has come as far as this one, but for the
queues of its groups, and its readers have got the same. -/
def undropped (d : LiveSplit) (groups : List (Queue WorkerReply))
    (input : List (Except Cause WorkerReply)) : Demux :=
  ⟨input, { d.split with groups }, d.handed, d.read⟩

/-- Nothing has stopped the split yet: but for the groups that were dropped, it keeps to the plan
for the stream. -/
def Live (items later : List (Except Cause WorkerReply)) (es : List LiveEvent) (d : LiveSplit) :
    Prop :=
  d.split.Focused ∧ ∃ groups, Hides d.split.groups groups ∧
    (d.undropped groups (if d.split.ended then [] else expected later es)).Sound items

namespace Live

/-- At the beginning nothing has stopped the split. -/
theorem start (later : List (Except Cause WorkerReply)) (es : List LiveEvent) :
    Live (expected later es) later es start :=
  ⟨⟨fun hne => absurd rfl hne, nofun⟩, [], Hides.refl _, Demux.sound_start _⟩

/-- An element of the stream arrives. What comes after the end is not taken. -/
theorem arrive {item : Except Cause WorkerReply} (h : Live items later (.arrive item :: es) d) :
    Live items later es (d.apply (.arrive item)) := by
  obtain ⟨hfocused, groups, hgroups, hsound⟩ := h
  cases hended : d.split.ended with
  | true =>
    have hsame : d.apply (.arrive item) = d := by
      simp [apply, Splitter.arrive, Splitter.isOpen, hended]
    rw [hended] at hsound
    rw [hsame]
    refine ⟨hfocused, groups, hgroups, ?_⟩
    rw [hended]
    exact hsound
  | false =>
    rw [hended] at hsound
    have harrived := hsound.apply .arrive
    simp only [Demux.apply, undropped, expected, Bool.false_eq_true, if_false,
      Splitter.arrive_eq] at harrived
    simp only [apply, Splitter.arrive_eq]
    refine ⟨⟨hfocused.reading, hfocused.handing⟩, groups, hgroups, ?_⟩
    have hlater : (if d.split.ended = true then [] else expected later es) = expected later es :=
      if_neg (by simp [hended])
    show Demux.Sound items
      (undropped _ groups (if d.split.ended = true then [] else expected later es))
    rw [hlater]
    exact harrived

/-- The stream ends. -/
theorem finish (h : Live items later (.finish :: es) d) :
    Live items later es (d.apply .finish) := by
  obtain ⟨hfocused, groups, hgroups, hsound⟩ := h
  have hinput : (if d.split.ended then [] else expected later (.finish :: es)) = [] := by
    split <;> rfl
  rw [hinput] at hsound
  exact ⟨⟨hfocused.reading, hfocused.handing⟩, groups, hgroups, hsound.apply .arrive⟩

/-- The producer takes its next step. -/
theorem step (h : Live items later (.step :: es) d) : Live items later es (d.apply .step) := by
  obtain ⟨hfocused, groups, hgroups, hsound⟩ := h
  have hstepped := hsound.apply .step
  have hmirrors : d.split.Mirrors { d.split with groups } := ⟨groups, rfl, hgroups⟩
  rcases hmirrors.step with ⟨hnone, hnone'⟩ | ⟨t, t', ht, ht', groups', rfl, hgroups'⟩
  · simp only [apply, hnone]
    exact ⟨hfocused, groups, hgroups, hsound⟩
  · simp only [apply, ht]
    simp only [Demux.apply, undropped, ht'] at hstepped
    refine ⟨hfocused.step ht, groups', hgroups', ?_⟩
    simp only [Splitter.ended_of_step ht]
    exact hstepped

/-- The reader of a group goes. -/
theorem dropGroup {group : Nat} (h : Live items later (.dropGroup group :: es) d) :
    Live items later es (d.apply (.dropGroup group)) := by
  obtain ⟨hfocused, groups, hgroups, hsound⟩ := h
  simp only [apply, Splitter.dropGroup]
  split
  next =>
    exact ⟨⟨hfocused.reading, hfocused.handing⟩, groups, hgroups.dropReader group, hsound⟩
  next => exact ⟨hfocused, groups, hgroups, hsound⟩

/-- A split that was not stopped is not cancelled, and its caller has the groups. -/
theorem frame (h : Live items later es d) :
    d.split.cancelled = false ∧ d.split.outer.readerGone = false := by
  obtain ⟨-, groups, -, taken, verdict, last, hordered, ⟨-, announced, -, hdelivers⟩, -⟩ := h
  exact ⟨hordered.cancelled, hdelivers.reader⟩

/-- The caller asks for the next group. -/
theorem nextGroup (h : Live items later (.nextGroup :: es) d) :
    Live items later es (d.apply .nextGroup) := by
  obtain ⟨hcancelled, hreader⟩ := h.frame
  obtain ⟨hfocused, groups, hgroups, hsound⟩ := h
  have hnext := hsound.apply .nextGroup
  simp only [Demux.apply, undropped] at hnext
  rw [Splitter.nextGroup_eq (s := { d.split with groups }) hcancelled] at hnext
  simp only [apply, hreader, Bool.false_eq_true, if_false, Splitter.nextGroup_eq hcancelled]
  refine ⟨⟨hfocused.reading, hfocused.handing⟩, groups, hgroups, ?_⟩
  simp only [undropped, handed, Reading.of_hear]
  exact hnext

/-- The caller asks for the next reply of a group. -/
theorem recv {group : Nat} (h : Live items later (.recv group :: es) d) :
    Live items later es (d.apply (.recv group)) := by
  obtain ⟨hcancelled, hreader⟩ := h.frame
  obtain ⟨hfocused, groups, hgroups, hsound⟩ := h
  cases hgroup : d.split.group? group with
  | none =>
    simp only [apply, Splitter.recv_of_group?_none hgroup]
    exact ⟨hfocused, groups, hgroups, hsound⟩
  | some q =>
    obtain ⟨hhanded, hq, hreader'⟩ := Splitter.group?_eq_some_iff.1 hgroup
    have hread := hsound.apply (.recv group)
    simp only [Demux.apply, undropped] at hread
    rw [Splitter.recv_of_handedOut (s := { d.split with groups }) hcancelled hhanded
      (hgroups.queue _ _ hq hreader') hreader'] at hread
    simp only [apply, Splitter.recv_of_handedOut hcancelled hhanded hq hreader']
    refine ⟨⟨hfocused.reading, hfocused.handing⟩, _, hgroups.set group _, ?_⟩
    have hheard : (fun k => if k = group then (d.read k).record (q.recv false).1 else d.read k) =
        fun k => Reading.of
          (if k = group then d.inner k ++ (q.recv false).1.heard else d.inner k) := by
      funext k
      split
      · exact (Reading.of_hear _ _).symm
      · rfl
    simp only [hheard] at hread
    exact hread

/-- Nothing but a cancellation or dropping the groups stops the split. -/
theorem apply {e : LiveEvent} (h : Live items later (e :: es) d) (hcancel : e ≠ .cancel)
    (hdrop : e ≠ .dropGroups) : Live items later es (d.apply e) := by
  cases e with
  | arrive item => exact h.arrive
  | finish => exact h.finish
  | step => exact h.step
  | cancel => exact absurd rfl hcancel
  | dropGroups => exact absurd rfl hdrop
  | dropGroup group => exact h.dropGroup
  | nextGroup => exact h.nextGroup
  | recv group => exact h.recv

/-- Without either the split goes on. -/
theorem run {es' : List LiveEvent} (h : Live items later (es ++ es') d)
    (hcancel : LiveEvent.cancel ∉ es) (hdrop : LiveEvent.dropGroups ∉ es) :
    Live items later es' (d.run es) := by
  induction es generalizing d with
  | nil => exact h
  | cons e es ih =>
    rw [List.mem_cons, not_or] at hcancel hdrop
    exact ih (h.apply (Ne.symm hcancel.1) (Ne.symm hdrop.1)) hcancel.2 hdrop.2

/-- A run that nothing stops keeps to the plan for what arrives and what is still to come. -/
theorem of_start (later : List (Except Cause WorkerReply)) (hcancel : LiveEvent.cancel ∉ es)
    (hdrop : LiveEvent.dropGroups ∉ es) :
    Live (expected later es) later [] (LiveSplit.start.run es) := by
  refine run ?_ hcancel hdrop
  rw [List.append_nil]
  exact start later es

end Live

end LiveSplit

end Sidecar
