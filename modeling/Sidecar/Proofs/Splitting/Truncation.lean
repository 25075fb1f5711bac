import Sidecar.Proofs.Splitting.Teardown

/-!
# No group is cut short in silence

Whatever happens to a split, and whenever it is stopped, a reader that is told of a clean end has
got all there was to get. A split that is stopped says so: its readers hear that it was cancelled,
or that the group they were reading was abandoned (`LiveSplit.no_silent_truncation`).
-/

namespace Sidecar

namespace LiveSplit

variable {items later : List (Except Cause WorkerReply)} {d : LiveSplit} {e : LiveEvent}
  {es es' : List LiveEvent}

/-! ## The invariant -/

/-- Nothing has stopped the split yet, or it was stopped. -/
def Kept (items later : List (Except Cause WorkerReply)) (es : List LiveEvent) (d : LiveSplit) :
    Prop :=
  Live items later es d ∨ Torn items d

namespace Kept

/-- Every event keeps the invariant. -/
theorem apply (h : Kept items later (e :: es) d) : Kept items later es (d.apply e) := by
  rcases h with hlive | htorn
  · cases e with
    | cancel => exact .inr hlive.cancel
    | dropGroups => exact .inr hlive.dropGroups
    | arrive | finish | step | dropGroup | nextGroup | recv =>
      exact .inl (hlive.apply (by simp) (by simp))
  · exact .inr (htorn.apply e)

/-- Every run keeps the invariant. -/
theorem run (h : Kept items later (es ++ es') d) :
    Kept items later es' (d.run es) := by
  induction es generalizing d with
  | nil => exact h
  | cons e es ih => exact ih h.apply

/-- The invariant holds after every run. -/
theorem of_start (later : List (Except Cause WorkerReply)) (es : List LiveEvent) :
    Kept (expected later es) later [] (start.run es) := by
  refine run ?_
  rw [List.append_nil]
  exact .inl (Live.start later es)

/-- The clean ends that readers were told of are true. -/
theorem truthful (h : Kept items later es d) : Truthful items d := by
  rcases h with hlive | htorn
  · exact hlive.truthful
  · exact htorn.truthful

/-- The queue of a group is finished exactly if its reader was told of an end. -/
theorem finished (h : Kept items later es d) {k : Nat} {q : Queue WorkerReply}
    (hgroup : d.split.group? k = some q) : q.finished = (d.read k).outcome.isSome := by
  rcases h with hlive | htorn
  · obtain ⟨replies, ended, hdelivers, -⟩ := hlive.delivers hgroup
    exact hdelivers.owes.finished
  · obtain ⟨replies, ended, howes, -⟩ := htorn.owes k q hgroup
    exact howes.finished

/-- The outer queue is finished exactly if its reader was told of an end. -/
theorem finished_outer (h : Kept items later es d) (hreader : d.split.outer.readerGone = false) :
    d.split.outer.finished = d.handed.outcome.isSome := by
  rcases h with hlive | htorn
  · obtain ⟨announced, last, hdelivers⟩ := hlive.delivers_outer
    exact hdelivers.owes.finished
  · exact htorn.outer hreader

/-- Without a cancellation the split is not cancelled. -/
theorem cancelled_run (h : Kept items later (es ++ es') d) (hcancelled : d.split.cancelled = false)
    (hnever : LiveEvent.cancel ∉ es) : (d.run es).split.cancelled = false := by
  induction es generalizing d with
  | nil => exact hcancelled
  | cons e es ih =>
    refine ih h.apply ?_ fun hmem => hnever (List.mem_cons_of_mem _ hmem)
    rcases h with hlive | htorn
    · cases e with
      | cancel => exact absurd (List.mem_cons_self ..) hnever
      | dropGroups => exact hcancelled
      | arrive | finish | step | dropGroup | nextGroup | recv =>
        exact (hlive.apply (by simp) (by simp)).frame.1
    · have hne : e ≠ .cancel := fun heq => hnever (heq ▸ List.mem_cons_self ..)
      rw [cancelled_apply htorn.stopped (.inr hne), hcancelled]

end Kept

/-! ## The open group -/

/-- What has arrived in the course of some events does not complete a group, and does not fail: the
stream has not ended, and all of it is accepted. -/
structure Incomplete (es : List LiveEvent) (group : Nat) : Prop where
  going : LiveEvent.finish ∉ es
  accepted : arrivals es = (acceptedReplies (arrivals es)).map .ok
  group : (completeGroups (arrivals es)).length ≤ group

/-- What has arrived is accepted, with a tracker to go on with. -/
theorem Incomplete.exists_tracker {group : Nat} (h : Incomplete es group) :
    ∃ taken tracker, Tracker.start.accept (arrivals es) = (taken, .ok tracker) := by
  cases haccept : Tracker.start.accept (arrivals es) with
  | mk taken final =>
    cases final with
    | ok tracker => exact ⟨taken, tracker, rfl⟩
    | error e =>
      have hlt := Tracker.length_accept_lt haccept
      have hlength := congrArg List.length h.accepted
      simp only [acceptedReplies, haccept, List.length_map] at hlength
      omega

/-- Were the stream to fail next, a group that is not complete could only end with that failure. -/
theorem Incomplete.ending {group : Nat} (h : Incomplete es group) (cause : Cause)
    {replies : List WorkerReply} {o : SequenceEnd}
    (hplan : (SplitPlan.of (arrivals es ++ [.error cause])).groups[group]? = some (replies, o)) :
    o = .error (Splitter.broken cause) := by
  obtain ⟨taken, tracker, haccept⟩ := h.exists_tracker
  have hfails := Tracker.accept_append haccept [.error cause]
  simp only [Tracker.accept, List.append_nil] at hfails
  have hgroup := h.group
  simp only [completeGroups, haccept] at hgroup
  have hpart : (cutAfter taken).parts[group]? = some replies := by
    rw [← SplitPlan.map_fst_groups hfails, List.getElem?_map, hplan]
    rfl
  rcases Cut.getElem?_parts hpart with hclosed | ⟨hrest, rfl, -⟩
  · have hlt := (List.getElem?_eq_some_iff.1 hclosed).1
    omega
  · rw [SplitPlan.getElem?_groups_rest hfails hrest, SplitPlan.outcome_of hfails] at hplan
    cases hplan
    rfl

/-- A group that was handed out and is not complete is the open one, as long as nothing stops the
split. -/
theorem Incomplete.current {k : Nat} (h : Incomplete es k) (hcancel : LiveEvent.cancel ∉ es)
    (hdrop : LiveEvent.dropGroups ∉ es) {q : Queue WorkerReply}
    (hgroup : (start.run es).split.group? k = some q) :
    (start.run es).split.current = some k := by
  have hlive (cause : Cause) :
      Live (arrivals es ++ [.error cause]) [.error cause] [] (start.run es) := by
    rw [← expected_of_not_finish [.error cause] h.going]
    exact Live.of_start _ hcancel hdrop
  -- The queue does not depend on what is still to come, and so it has no end.
  obtain ⟨replies, ended, hdelivers, hplan⟩ := (hlive (.ofText "")).delivers_plan hgroup
  obtain ⟨replies', ended', hdelivers', hplan'⟩ := (hlive (.ofText "late")).delivers_plan hgroup
  have hunended : ∃ content, q.Delivers ((start.run es).read k) content none := by
    cases ended with
    | none => exact ⟨replies, hdelivers⟩
    | some o =>
      cases ended' with
      | none => exact ⟨replies', hdelivers'⟩
      | some o' =>
        have hsame := hdelivers.outcome_unique hdelivers'
        rw [h.ending _ (hplan o rfl), h.ending _ (hplan' o' rfl)] at hsame
        exact absurd (Except.error.inj hsame) (by decide)
  obtain ⟨content, hcontent⟩ := hunended
  obtain ⟨hnone, -, queued, -, hbuffer⟩ := hcontent.going
  exact (hlive (.ofText "")).current_of_buffer hgroup hnone hbuffer

/-! ## How a stop is told -/

/-- Where the split is cancelled, the caller hears of it when it asks for more groups, once, unless
it was told of an end before. -/
theorem outer_run_cancel {before after : List LiveEvent}
    (hreader : (start.run before).split.outer.readerGone = false) :
    (start.run (before ++ .cancel :: after)).outer =
      (start.run before).outer ++ answersTo (outerReads after) []
        (if (start.run before).handed.outcome.isSome then none else some .cancelled) := by
  rw [run_append, run_cons, ← (Kept.of_start [] before).finished_outer hreader,
    ← Queue.answers_stopped]
  exact outer_run (d := (start.run before).apply .cancel) rfl hreader after

/-- So does the reader of a group. -/
theorem inner_run_cancel {before after : List LiveEvent} {k : Nat}
    (hgroup : ((start.run before).split.group? k).isSome) :
    (start.run (before ++ .cancel :: after)).inner k =
      (start.run before).inner k ++ answersTo (groupReads k after) []
        (if ((start.run before).read k).outcome.isSome then none else some .cancelled) := by
  obtain ⟨q, hq⟩ := Option.isSome_iff_exists.1 hgroup
  rw [run_append, run_cons, ← (Kept.of_start [] before).finished hq, ← Queue.answers_stopped]
  exact inner_run (d := (start.run before).apply .cancel) (.inl rfl) hq (.inl rfl)

/-- Where the caller drops the groups, the reader of the open group gets what is in its queue, and
then hears that the group was abandoned. -/
theorem inner_run_dropGroups {before after : List LiveEvent} {k : Nat} {q : Queue WorkerReply}
    (hnever : LiveEvent.cancel ∉ before ++ .dropGroups :: after)
    (hgroup : (start.run before).split.group? k = some q)
    (hcurrent : (start.run before).split.current = some k) :
    ∃ queued, q.buffer = queued.map .item ∧
      (start.run (before ++ .dropGroups :: after)).inner k =
        (start.run before).inner k ++
          answersTo (groupReads k after) queued (some .abandoned) := by
  rw [List.mem_append, List.mem_cons, not_or, not_or] at hnever
  obtain ⟨hnotBefore, -, hnotAfter⟩ := hnever
  have hstart : Kept (expected [] before) [] (before ++ []) start := by
    rw [List.append_nil]
    exact .inl (Live.start [] before)
  have hcancelled := hstart.cancelled_run rfl hnotBefore
  have hlive : Live (expected [] before) [] [] (start.run before) := by
    rcases Kept.of_start [] before with hlive | htorn
    · exact hlive
    · rcases htorn.stopped with hstopped | ⟨-, hnone, -⟩
      · rw [hcancelled] at hstopped
        cases hstopped
      · rw [hnone] at hcurrent
        cases hcurrent
  obtain ⟨replies, hdelivers⟩ := hlive.delivers_open hgroup hcurrent
  obtain ⟨-, hfinished, queued, -, hbuffer⟩ := hdelivers.going
  refine ⟨queued, hbuffer, ?_⟩
  have hdropped : ((start.run before).apply .dropGroups).split.group? k = some q.dropWriter := by
    show (start.run before).split.dropGroups.group? k = _
    rw [Splitter.group?_dropGroups, hgroup]
    rfl
  have hcancelled' : ((start.run before).apply .dropGroups).split.cancelled = false := hcancelled
  have hstopped : ((start.run before).apply .dropGroups).split.Stopped := .inr ⟨rfl, rfl, rfl⟩
  rw [run_append, run_cons, inner_run hstopped hdropped (.inr ⟨rfl, hnotAfter⟩), hcancelled',
    Queue.answers_of_abandoned (q := q.dropWriter) hfinished hbuffer rfl]
  rfl

/-! ## The guarantee -/

/-- Whatever arrives, and whenever the stream ends, the split is cancelled, or the caller asks for
groups and replies and drops them, no group is cut short in silence.

A reader that is told of the clean end of a group has got all replies of a group that is complete,
in order. A caller that is told of the clean end of the groups was handed all of them, and the
stream has ended without a group left open. After a cancellation each reader that was not told of an
end hears of it once, and then nothing more, and gets nothing more. Where the caller drops the
groups, the reader of the open group gets what is in the queue and then hears that the group was
abandoned; and a group that it was handed is the open one if what has arrived neither completes it
nor fails. -/
theorem no_silent_truncation (es : List LiveEvent) :
    let d := start.run es
    (∀ k, (d.read k).outcome = some (.ok ()) →
      (completeGroups (arrivals es))[k]? = some (d.read k).got) ∧
    (d.handed.outcome = some (.ok ()) →
      LiveEvent.finish ∈ es ∧ HandsOut (arrivals es) d.handed.got) ∧
    (∀ before after, es = before ++ .cancel :: after →
      let b := start.run before
      (b.split.outer.readerGone = false → d.outer = b.outer ++ answersTo (outerReads after) []
        (if b.handed.outcome.isSome then none else some .cancelled)) ∧
      ∀ k, (b.split.group? k).isSome → d.inner k = b.inner k ++ answersTo (groupReads k after) []
        (if (b.read k).outcome.isSome then none else some .cancelled)) ∧
    (∀ before after, es = before ++ .dropGroups :: after → LiveEvent.cancel ∉ es →
      let b := start.run before
      ∀ k q, b.split.group? k = some q →
        (LiveEvent.dropGroups ∉ before → Incomplete before k → b.split.current = some k) ∧
        (b.split.current = some k → ∃ queued, q.buffer = queued.map .item ∧
          d.inner k = b.inner k ++ answersTo (groupReads k after) queued (some .abandoned))) := by
  intro d
  refine ⟨?_, ?_, ?_, ?_⟩
  · intro k hclean
    have htruthful := (Kept.of_start [] es).truthful
    rw [expected_nil] at htruthful
    exact htruthful.inner k hclean
  · intro hclean
    -- Were the stream still to go on with a failure, a clean end would contradict it.
    have htruthful := (Kept.of_start [.error default] es).truthful
    have hhands := htruthful.outer hclean
    by_cases hfinish : LiveEvent.finish ∈ es
    · rw [expected_of_finish _ hfinish] at hhands
      exact ⟨hfinish, hhands⟩
    · have haccepted := hhands.accepted
      rw [expected_of_not_finish _ hfinish] at haccepted
      have hmem : Except.error default ∈ (acceptedReplies (arrivals es ++ [.error default])).map
          (Except.ok : WorkerReply → Except Cause WorkerReply) := by
        rw [← haccepted]
        simp
      simp at hmem
  · rintro before after rfl
    exact ⟨outer_run_cancel, fun k hgroup => inner_run_cancel hgroup⟩
  · rintro before after rfl hnever b k q hgroup
    refine ⟨?_, fun hcurrent => inner_run_dropGroups hnever hgroup hcurrent⟩
    intro hdrop hincomplete
    exact hincomplete.current (fun hmem => hnever (List.mem_append_left _ hmem)) hdrop hgroup

example :
    let part := WorkerReply.ofKind "a" (.output (some (.data ⟨[1], false⟩)))
    let d := start.run
      [.arrive (.ok part), .step, .nextGroup, .dropGroups, .recv 0, .recv 0, .recv 0]
    d.inner 0 = [.item part, .error .abandoned, .ended] := rfl

end LiveSplit

end Sidecar
