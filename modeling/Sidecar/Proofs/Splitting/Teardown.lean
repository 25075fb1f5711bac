import Sidecar.Proofs.Splitting.Stopping

/-!
# What a stopped split still owes its readers

Until the split is stopped, a reader that is told of a clean end has got what the plan for the
stream says (`LiveSplit.Live.truthful`). Afterwards the queues still owe their readers what they
hold and the end that was put in, if one was (`Queue.Owes`), and no queue is given a clean end any
more (`LiveSplit.Torn`).
-/

namespace Sidecar

/-! ## What a queue still owes its reader -/

namespace Queue

variable {α : Type}

/-- What the queue holds is what the reader has not got yet of a sequence, and then the end, if
there is one. A clean end is only told where it is that end and nothing is missing. -/
structure Owes (q : Queue α) (r : Reading α) (content : List α) (outcome : Option SequenceEnd) :
    Prop where
  finished : q.finished = r.outcome.isSome
  pending : r.outcome = none → ∃ pending, content = r.got ++ pending ∧
    q.buffer = pending.map .item ++ (outcome.map SequenceEnd.entry).toList
  clean : r.outcome = some (.ok ()) → outcome = some (.ok ()) ∧ r.got = content

variable {q : Queue α} {r : Reading α} {content : List α} {outcome : Option SequenceEnd}

/-- A queue has one end. -/
theorem Delivers.outcome_unique {o o' : SequenceEnd} {content' : List α}
    (h : q.Delivers r content (some o)) (h' : q.Delivers r content' (some o')) : o = o' := by
  rcases h.entries with ⟨-, hfinished, pending, -, hbuffer⟩ | ⟨houtcome, -, hfinished, -, -⟩
  · rcases h'.entries with ⟨-, -, pending', -, hbuffer'⟩ | ⟨-, -, hfinished', -, -⟩
    · have hlast := congrArg List.getLast? (hbuffer.symm.trans hbuffer')
      have hentry : (o.entry : Entry α) = o'.entry := by simpa using hlast
      rcases o with e | ⟨⟨⟩⟩ <;> rcases o' with e' | ⟨⟨⟩⟩ <;> simp_all [SequenceEnd.entry]
    · rw [hfinished] at hfinished'
      cases hfinished'
  · rcases h'.entries with ⟨-, hfinished', -⟩ | ⟨houtcome', -⟩
    · rw [hfinished] at hfinished'
      cases hfinished'
    · exact Option.some.inj (houtcome.symm.trans houtcome')

/-- A queue that delivers a sequence owes what is left of it. -/
theorem Delivers.owes (h : q.Delivers r content outcome) : q.Owes r content outcome := by
  rcases h.entries with ⟨hnone, hfinished, pending, hcontent, hbuffer⟩ |
    ⟨houtcome, hsome, hfinished, hcontent, -⟩
  · refine ⟨by rw [hfinished, hnone]; rfl, fun _ => ⟨pending, hcontent, hbuffer⟩, ?_⟩
    intro hclean
    rw [hnone] at hclean
    cases hclean
  · refine ⟨?_, ?_, ?_⟩
    · rw [hfinished, houtcome, Option.isSome_iff_ne_none.2 hsome]
    · intro hnone
      exact absurd (houtcome.symm.trans hnone) hsome
    · intro hclean
      exact ⟨houtcome.symm.trans hclean, hcontent.symm⟩

namespace Owes

/-- The writer goes away. -/
theorem dropWriter (h : q.Owes r content outcome) : q.dropWriter.Owes r content outcome :=
  ⟨h.finished, h.pending, h.clean⟩

/-- The reader is told of an error, be it one that the writer has put in or not. -/
theorem fail (hseen : r.outcome = none) (hfinished : q.finished = true) (e : QueueError) :
    q.Owes (r.record (.error e)) content outcome := by
  have houtcome : (r.record (.error e)).outcome = some (.error e) := by
    simp [Reading.record, Reading.close, hseen]
  refine ⟨by rw [hfinished, houtcome]; rfl, ?_, ?_⟩
  · intro hnone
    rw [houtcome] at hnone
    cases hnone
  · intro hclean
    rw [houtcome] at hclean
    cases hclean

/-- The reader reads, be the split cancelled or not. -/
theorem recv (h : q.Owes r content outcome) (stopped : Bool) :
    (q.recv stopped).2.Owes (r.record (q.recv stopped).1) content outcome := by
  cases hseen : r.outcome with
  | some o =>
    have hfinished : q.finished = true := by rw [h.finished, hseen]; rfl
    have hrecv : q.recv stopped = (.ended, q) := by simp [Queue.recv, hfinished]
    have hsame : r.record .ended = r := by
      obtain ⟨got, seen⟩ := r
      cases hseen
      rfl
    rw [hrecv, hsame]
    exact h
  | none =>
    have hfinished : q.finished = false := by rw [h.finished, hseen]; rfl
    obtain ⟨pending, hcontent, hbuffer⟩ := h.pending hseen
    cases stopped with
    | true =>
      rw [recv_stopped hfinished]
      exact fail hseen rfl _
    | false =>
      cases pending with
      | cons a pending =>
        rw [recv_item hfinished hbuffer]
        refine ⟨h.finished, fun _ => ⟨pending, ?_, rfl⟩, ?_⟩
        · simp [hcontent, Reading.record]
        · intro hclean
          exact absurd (hseen.symm.trans hclean) (by simp)
      | nil =>
        cases outcome with
        | none =>
          cases hwriter : q.writerGone with
          | true =>
            rw [recv_abandoned hfinished hbuffer hwriter]
            exact fail hseen rfl _
          | false =>
            rw [recv_pending hfinished hbuffer hwriter]
            exact h
        | some o =>
          rcases o with e | ⟨⟨⟩⟩
          · rw [recv_fail hfinished hbuffer]
            exact fail hseen rfl _
          · rw [recv_close hfinished hbuffer]
            have houtcome : (r.record .ended).outcome = some (.ok ()) := by
              simp [Reading.record, Reading.close, hseen]
            refine ⟨by rw [houtcome]; rfl, ?_, ?_⟩
            · intro hnone
              rw [houtcome] at hnone
              cases hnone
            · intro _
              exact ⟨rfl, by simp [hcontent, Reading.record, Reading.close]⟩

end Owes

/-- Reading a cancelled queue tells of no clean end that was not told before. -/
theorem record_recv_stopped (h : q.finished = r.outcome.isSome) :
    (q.recv true).2.finished = (r.record (q.recv true).1).outcome.isSome ∧
      ((r.record (q.recv true).1).outcome = some (.ok ()) → r.record (q.recv true).1 = r) := by
  obtain ⟨got, seen⟩ := r
  cases seen with
  | some o =>
    have hrecv : q.recv true = (.ended, q) := by simp [Queue.recv, h]
    rw [hrecv]
    exact ⟨h, fun _ => rfl⟩
  | none =>
    rw [recv_stopped h]
    refine ⟨rfl, ?_⟩
    intro hclean
    cases hclean

end Queue

/-! ## What a clean end says -/

/-- All groups of a stream were handed out, in order and each with its first reply, and there is
nothing more: the stream was accepted as a whole, and no group is left open. -/
structure HandsOut (items : List (Except Cause WorkerReply))
    (handed : List (Nat × WorkerReply)) : Prop where
  accepted : items = (acceptedReplies items).map .ok
  closed : openGroup items = []
  length : handed.length = (completeGroups items).length
  group : ∀ (k : Nat) (replies : List WorkerReply), (completeGroups items)[k]? = some replies →
    ∃ first, handed[k]? = some (k, first) ∧ replies.head? = some first

/-- A group of the plan that ends cleanly is complete. -/
theorem SplitPlan.completeGroups_of_groups {items : List (Except Cause WorkerReply)} {k : Nat}
    {replies : List WorkerReply} (h : (SplitPlan.of items).groups[k]? = some (replies, .ok ())) :
    (completeGroups items)[k]? = some replies := by
  cases haccept : Tracker.start.accept items with
  | mk accepted final =>
    have hmem : (cutAfter accepted).parts[k]? = some replies := by
      rw [← map_fst_groups haccept, List.getElem?_map, h]
      rfl
    unfold completeGroups
    rw [haccept]
    rcases Cut.getElem?_parts hmem with hclosed | ⟨hrest, rfl, rfl⟩
    · exact hclosed
    · -- An open group ends as the sequence of groups does, which is not cleanly.
      rw [getElem?_groups_rest haccept hrest] at h
      have houtcome : (SplitPlan.of items).outcome = .ok () := by simpa using h
      have hnil := ((outcome_eq_ok_iff items).1 houtcome).2
      rw [haccept] at hnil
      exact absurd hnil hrest

/-- Where the plan ends cleanly, its groups are those that are complete. -/
theorem SplitPlan.length_groups_of_outcome {items : List (Except Cause WorkerReply)}
    (h : (SplitPlan.of items).outcome = .ok ()) :
    (SplitPlan.of items).groups.length = (completeGroups items).length := by
  have hnil := ((outcome_eq_ok_iff items).1 h).2
  rw [← List.length_map (f := Prod.fst), map_fst_groups rfl, Cut.parts_of_rest_nil hnil]
  rfl

/-- A group that was handed out is one of the parts. -/
theorem Demux.Announced.lt_length_parts {d : Demux} {cut : Cut WorkerReply}
    {verdict last : Option SequenceEnd} (h : d.Announced cut last)
    (hordered : d.Ordered cut verdict) {k : Nat} (hk : k < d.split.handedOut) :
    k < cut.parts.length := by
  rw [hordered.handedOut] at hk
  exact Nat.lt_of_lt_of_le hk h.length_got_le

namespace LiveSplit

variable {items later : List (Except Cause WorkerReply)} {d : LiveSplit} {es : List LiveEvent}

/-- The clean ends that readers were told of are true: the group is complete, and the reader has got
all of it; or all groups were handed out, and the stream has ended between two groups. -/
structure Truthful (items : List (Except Cause WorkerReply)) (d : LiveSplit) : Prop where
  outer : d.handed.outcome = some (.ok ()) → HandsOut items d.handed.got
  inner : ∀ k, (d.read k).outcome = some (.ok ()) →
    (completeGroups items)[k]? = some (d.read k).got

namespace Live

/-- Until the split is stopped, what readers are told is what the plan says. -/
theorem truthful (h : Live items later es d) : Truthful items d := by
  obtain ⟨-, groups, -, hsound⟩ := h
  obtain ⟨hgroups, hended, hunread⟩ := hsound.follows
  refine ⟨?_, ?_⟩
  · intro hclean
    obtain ⟨hlength, houtcome⟩ := hended (.ok ()) hclean
    obtain ⟨haccepted, hrest⟩ := (SplitPlan.outcome_eq_ok_iff items).1 houtcome.symm
    have hcomplete : d.handed.got.length = (completeGroups items).length :=
      hlength.trans (SplitPlan.length_groups_of_outcome houtcome.symm)
    refine ⟨haccepted, hrest, hcomplete, ?_⟩
    intro k replies hreplies
    have hk : k < d.handed.got.length := by
      rw [hcomplete]
      exact (List.getElem?_eq_some_iff.1 hreplies).1
    obtain ⟨⟨group, first⟩, hget⟩ : ∃ x, d.handed.got[k]? = some x :=
      ⟨_, List.getElem?_eq_getElem hk⟩
    obtain ⟨rfl, replies', ending, hplan, hhead, -⟩ := hgroups k group first hget
    have hclosed := SplitPlan.getElem?_groups_closed rfl hreplies
    cases hclosed.symm.trans hplan
    exact ⟨first, hget, hhead⟩
  · intro k hclean
    have hk : k < d.handed.got.length := by
      refine Nat.lt_of_not_le fun hle => ?_
      have hstart : d.read k = .start := hunread k hle
      rw [hstart] at hclean
      cases hclean
    obtain ⟨⟨group, first⟩, hget⟩ : ∃ x, d.handed.got[k]? = some x :=
      ⟨_, List.getElem?_eq_getElem hk⟩
    obtain ⟨-, replies, ending, hplan, -, -, hends⟩ := hgroups k group first hget
    obtain ⟨hgot, rfl⟩ := hends (.ok ()) hclean
    rw [SplitPlan.completeGroups_of_groups hplan]
    exact congrArg some hgot.symm

/-- The queue of a group that was handed out delivers the group, with its end once it has one. -/
theorem delivers_plan (h : Live items later es d) {k : Nat} {q : Queue WorkerReply}
    (hgroup : d.split.group? k = some q) :
    ∃ replies ended, q.Delivers (d.read k) replies ended ∧
      ∀ o, ended = some o → (SplitPlan.of items).groups[k]? = some (replies, o) := by
  obtain ⟨-, groups, hgroups, taken, verdict, last, hordered, hannounced, hstanding⟩ := h
  obtain ⟨hk, hq, hreader⟩ := Splitter.group?_eq_some_iff.1 hgroup
  have hlt := hannounced.lt_length_parts hordered hk
  obtain ⟨ended, replies, ending, ⟨q', hq', -, hdelivers⟩, hplan, -, hends, -⟩ :=
    hordered.fills_plan hstanding (List.getElem?_eq_getElem hlt)
  cases (hgroups.queue k q hq hreader).symm.trans hq'
  refine ⟨_, ended, hdelivers, ?_⟩
  intro o hended
  obtain ⟨hpart, rfl⟩ := hends o hended
  rw [hpart]
  exact hplan

/-- If the queue of a group ends cleanly, the group is complete. -/
theorem delivers (h : Live items later es d) {k : Nat} {q : Queue WorkerReply}
    (hgroup : d.split.group? k = some q) :
    ∃ replies ended, q.Delivers (d.read k) replies ended ∧
      (ended = some (.ok ()) → (completeGroups items)[k]? = some replies) := by
  obtain ⟨replies, ended, hdelivers, hplan⟩ := h.delivers_plan hgroup
  exact ⟨replies, ended, hdelivers,
    fun hended => SplitPlan.completeGroups_of_groups (hplan _ hended)⟩

/-- The queue of the open group has no end. -/
theorem delivers_open (h : Live items later es d) {k : Nat} {q : Queue WorkerReply}
    (hgroup : d.split.group? k = some q) (hcurrent : d.split.current = some k) :
    ∃ replies, q.Delivers (d.read k) replies none := by
  obtain ⟨hfocused, groups, hgroups, taken, verdict, last, hordered, hannounced, hstanding⟩ := h
  obtain ⟨-, hq, hreader⟩ := Splitter.group?_eq_some_iff.1 hgroup
  have hreading : d.split.phase = .reading := (hfocused.reading (by simp [hcurrent])).1
  cases hstanding with
  | handing hphase | ending hphase | stopped hphase => cases hreading.symm.trans hphase
  | reading hphase hreads =>
    have hopen : (if (cutAfter taken).rest.isEmpty then none
        else some (cutAfter taken).closed.length) = some k :=
      hreads.current.symm.trans hcurrent
    split at hopen
    next => cases hopen
    next hrest =>
      cases hopen
      obtain ⟨q', hq', -, hdelivers⟩ := hordered.queued.opened (by simpa using hrest)
      cases (hgroups.queue _ q hq hreader).symm.trans hq'
      exact ⟨_, hdelivers⟩

/-- A group that was handed out is the open one if it has no end. -/
theorem current_of_buffer (h : Live items later es d) {k : Nat} {q : Queue WorkerReply}
    (hgroup : d.split.group? k = some q) (hnone : (d.read k).outcome = none)
    {queued : List WorkerReply} (hbuffer : q.buffer = queued.map .item) :
    d.split.current = some k := by
  obtain ⟨-, groups, hgroups, taken, verdict, last, hordered, hannounced, hstanding⟩ := h
  obtain ⟨hk, hq, hreader⟩ := Splitter.group?_eq_some_iff.1 hgroup
  have hlt := hannounced.lt_length_parts hordered hk
  -- A queue that was given an end would still hold it.
  have hunended : ∀ (part : List WorkerReply) (o : SequenceEnd),
      ¬ Fills groups d.read k part (some o) := by
    rintro part o ⟨q', hq', -, hdelivers⟩
    cases (hgroups.queue k q hq hreader).symm.trans hq'
    obtain ⟨pending, -, hpending⟩ := hdelivers.owes.pending hnone
    have hmem : (o.entry : Entry WorkerReply) ∈ queued.map .item := by
      rw [← hbuffer, hpending]
      simp
    rcases o with e | ⟨⟨⟩⟩ <;> simp [SequenceEnd.entry] at hmem
  rcases Cut.getElem?_parts (List.getElem?_eq_getElem hlt) with hclosed | ⟨hrest, rfl, -⟩
  · exact absurd (hordered.queued.closed k _ hclosed) (hunended _ _)
  · cases hstanding with
    | reading hphase hreads =>
      have hempty : (cutAfter taken).rest.isEmpty = false := by simpa using hrest
      have hcurrent := hreads.current
      rw [hempty] at hcurrent
      exact hcurrent
    | handing hphase hoffers => exact absurd hoffers.rest hrest
    | ending | stopped => exact absurd (hordered.queued.opened hrest) (hunended _ _)

/-- The outer queue delivers the groups. -/
theorem delivers_outer (h : Live items later es d) :
    ∃ announced last, d.split.outer.Delivers d.handed announced last := by
  obtain ⟨-, groups, -, taken, verdict, last, -, ⟨-, announced, -, hdelivers⟩, -⟩ := h
  exact ⟨announced, last, hdelivers⟩

end Live

/-! ## After the split was stopped -/

/-- The split was stopped. What its readers were told was true, and the queues of the groups still
owe what they hold. -/
structure Torn (items : List (Except Cause WorkerReply)) (d : LiveSplit) : Prop where
  stopped : d.split.Stopped
  truthful : Truthful items d
  outer : d.split.outer.readerGone = false → d.split.outer.finished = d.handed.outcome.isSome
  owes : ∀ (k : Nat) (q : Queue WorkerReply), d.split.group? k = some q →
    ∃ replies ended, q.Owes (d.read k) replies ended ∧
      (ended = some (.ok ()) → (completeGroups items)[k]? = some replies)

/-- A split is cancelled. -/
theorem Live.cancel (h : Live items later es d) : Torn items (d.apply .cancel) := by
  obtain ⟨announced, last, houter⟩ := h.delivers_outer
  refine ⟨.inl rfl, ⟨h.truthful.outer, h.truthful.inner⟩, fun _ => houter.owes.finished, ?_⟩
  intro k q hq
  obtain ⟨replies, ended, hdelivers, hcomplete⟩ := h.delivers hq
  exact ⟨replies, ended, hdelivers.owes, hcomplete⟩

/-- The caller drops the groups. -/
theorem Live.dropGroups (h : Live items later es d) : Torn items (d.apply .dropGroups) := by
  refine ⟨.inr ⟨rfl, rfl, rfl⟩, ⟨h.truthful.outer, h.truthful.inner⟩, nofun, ?_⟩
  intro k q hq
  rw [show (d.apply .dropGroups).split.group? k = (d.split.group? k).map Queue.dropWriter from
    Splitter.group?_dropGroups _ _] at hq
  obtain ⟨q', hq', rfl⟩ := Option.map_eq_some_iff.1 hq
  obtain ⟨replies, ended, hdelivers, hcomplete⟩ := h.delivers hq'
  exact ⟨replies, ended, hdelivers.owes.dropWriter, hcomplete⟩

namespace Torn

/-- What is owed to the reader of a group after an event. -/
theorem owes_apply (h : Torn items d) (e : LiveEvent) {k : Nat} {q : Queue WorkerReply}
    (hq : (d.apply e).split.group? k = some q) :
    ∃ replies ended, q.Owes ((d.apply e).read k) replies ended ∧
      (ended = some (.ok ()) → (completeGroups items)[k]? = some replies) := by
  have hnext := group?_apply h.stopped e k
  have hheard := inner_apply d e k
  rw [hq] at hnext
  unfold read
  rw [hheard]
  cases e with
  | arrive | finish | cancel | nextGroup => exact h.owes k q hnext.symm
  | dropGroup j =>
    simp only at hnext
    split at hnext
    next => cases hnext
    next => exact h.owes k q hnext.symm
  | dropGroups =>
    obtain ⟨q', hq', rfl⟩ := Option.map_eq_some_iff.1 hnext.symm
    obtain ⟨replies, ended, howes, hcomplete⟩ := h.owes k q' hq'
    exact ⟨replies, ended, howes.dropWriter, hcomplete⟩
  | step =>
    simp only at hnext
    split at hnext
    next =>
      obtain ⟨q', hq', rfl⟩ := Option.map_eq_some_iff.1 hnext.symm
      obtain ⟨replies, ended, howes, hcomplete⟩ := h.owes k q' hq'
      exact ⟨replies, ended, howes.dropWriter, hcomplete⟩
    next => exact h.owes k q hnext.symm
  | recv j =>
    simp only at hnext ⊢
    split at hnext
    next heq =>
      obtain ⟨q', hq', rfl⟩ := Option.map_eq_some_iff.1 hnext.symm
      obtain ⟨replies, ended, howes, hcomplete⟩ := h.owes k q' hq'
      rw [if_pos heq, hq', Option.elim_some, Reading.of_hear]
      exact ⟨replies, ended, howes.recv _, hcomplete⟩
    next hne =>
      rw [if_neg hne]
      exact h.owes k q hnext.symm

/-- What the caller has got of the groups after an event. -/
theorem handed_apply (h : Torn items d) (e : LiveEvent) :
    (d.apply e).handed =
      match e with
      | .nextGroup =>
        if d.split.outer.readerGone then d.handed
        else d.handed.record (d.split.outer.recv true).1
      | _ => d.handed := by
  unfold handed
  rw [outer_apply h.stopped]
  cases e with
  | nextGroup =>
    simp only
    split
    next => rfl
    next => rw [Reading.of_hear]
  | arrive | finish | step | cancel | dropGroups | dropGroup | recv => rfl

/-- What readers are told stays true. -/
theorem truthful_apply (h : Torn items d) (e : LiveEvent) : Truthful items (d.apply e) := by
  refine ⟨?_, ?_⟩
  · intro hclean
    have hsame : (d.apply e).handed = d.handed := by
      have hhanded := h.handed_apply e
      cases e with
      | nextGroup =>
        simp only at hhanded
        split at hhanded
        next => exact hhanded
        next hreader =>
          rw [hhanded] at hclean ⊢
          exact (Queue.record_recv_stopped (h.outer (by simpa using hreader))).2 hclean
      | arrive | finish | step | cancel | dropGroups | dropGroup | recv => exact hhanded
    rw [hsame] at hclean ⊢
    exact h.truthful.outer hclean
  · intro k hclean
    cases hgroup : (d.apply e).split.group? k with
    | some q =>
      obtain ⟨replies, ended, howes, hcomplete⟩ := h.owes_apply e hgroup
      obtain ⟨hended, hgot⟩ := howes.clean hclean
      rw [hcomplete hended, hgot]
    | none =>
      have hsame : (d.apply e).inner k = d.inner k := by
        have hnext := group?_apply h.stopped e k
        rw [inner_apply]
        cases e with
        | recv j =>
          simp only at hnext ⊢
          split
          next heq =>
            rw [if_pos heq, hgroup] at hnext
            rw [Option.map_eq_none_iff.1 hnext.symm]
            simp
          next => rfl
        | arrive | finish | step | cancel | dropGroups | dropGroup | nextGroup => rfl
      unfold read at hclean ⊢
      rw [hsame] at hclean ⊢
      exact h.truthful.inner k hclean

/-- The outer queue is finished exactly if its reader was told of an end. -/
theorem finished_apply (h : Torn items d) (e : LiveEvent)
    (hreader : (d.apply e).split.outer.readerGone = false) :
    (d.apply e).split.outer.finished = (d.apply e).handed.outcome.isSome := by
  rw [outerQueue_apply h.stopped] at hreader ⊢
  rw [h.handed_apply]
  cases e with
  | arrive | finish | cancel | dropGroup | recv => exact h.outer hreader
  | step =>
    simp only at hreader ⊢
    split at hreader
    next hstep =>
      rw [if_pos hstep]
      exact h.outer hreader
    next hstep =>
      rw [if_neg hstep]
      exact h.outer hreader
  | dropGroups => cases hreader
  | nextGroup =>
    simp only at hreader ⊢
    split at hreader
    next hgone =>
      rw [hgone] at hreader
      cases hreader
    next hthere =>
      rw [if_neg hthere, if_neg hthere]
      exact (Queue.record_recv_stopped (h.outer (by simpa using hthere))).1

/-- Every event keeps it that way. -/
theorem apply (h : Torn items d) (e : LiveEvent) : Torn items (d.apply e) :=
  ⟨stopped_apply h.stopped e, h.truthful_apply e, h.finished_apply e,
    fun _ _ hq => h.owes_apply e hq⟩

end Torn

end LiveSplit

end Sidecar
