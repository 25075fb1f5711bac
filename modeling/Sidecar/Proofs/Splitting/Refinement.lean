import Sidecar.Proofs.Splitting.Effort

/-!
# A split refines its plan

Under every schedule, what the caller of a split has read agrees with the plan for the stream
(`Demux.Follows`), and where nothing happens any more it has read all of the plan
(`Demux.Complete`).
-/

namespace Sidecar

/-! ## What the caller has read -/

namespace Demux

/-- What the caller has read is where a plan begins. The groups it was handed are the first ones of
the plan, in order, each with its first reply. What it has read of a group is how the group begins.
The end of a group comes after all of its replies, and the end of the sequence after all groups;
either is the one that is planned. Nothing was read of the groups that were not handed out. -/
structure Follows (d : Demux) (p : SplitPlan) : Prop where
  groups : ∀ (k group : Nat) (first : WorkerReply), d.outer.got[k]? = some (group, first) →
    group = k ∧ ∃ replies ending, p.groups[k]? = some (replies, ending) ∧
      replies.head? = some first ∧ (d.inner k).got <+: replies ∧
      ∀ outcome, (d.inner k).outcome = some outcome →
        (d.inner k).got = replies ∧ outcome = ending
  ended : ∀ outcome, d.outer.outcome = some outcome →
    d.outer.got.length = p.groups.length ∧ outcome = p.outcome
  unread : ∀ k, d.outer.got.length ≤ k → d.inner k = .start

/-- The caller has read all of a plan: every group was handed out and read to its end, and the end
of the sequence was seen. -/
structure Complete (d : Demux) (p : SplitPlan) : Prop where
  groups : d.outer.got.length = p.groups.length
  ended : d.outer.outcome = some p.outcome
  replies : ∀ (k : Nat) (replies : List WorkerReply) (ending : SequenceEnd),
    p.groups[k]? = some (replies, ending) → d.inner k = ⟨replies, some ending⟩

variable {items : List (Except Cause WorkerReply)} {d : Demux}
  {taken : List (WorkerReply × Bool)} {verdict last : Option SequenceEnd}

/-- What was taken in is where the accepted replies begin. Once the open group has an end, they are
all taken in, and the end is that of the sequence of groups. -/
theorem Standing.accepts (h : d.Standing items taken verdict last) :
    ∃ more final, Tracker.start.accept items = (taken ++ more, final) ∧
      ∀ outcome, verdict = some outcome → more = [] ∧ outcome = Tracker.sequenceEnd final := by
  cases h with
  | reading hphase hreads => exact ⟨_, _, hreads.accepting, nofun⟩
  | handing hphase hoffers =>
    have haccept : Tracker.start.accept items = _ := hoffers.accepting
    rw [List.append_assoc] at haccept
    exact ⟨_, _, haccept, nofun⟩
  | ending hphase hwaiting hconcludes =>
    obtain ⟨final, haccept, rfl⟩ := hconcludes
    refine ⟨[], final, by rw [haccept, List.append_nil], ?_⟩
    rintro outcome ⟨⟩
    exact ⟨rfl, rfl⟩
  | stopped hphase hconcludes =>
    obtain ⟨final, haccept, rfl⟩ := hconcludes
    refine ⟨[], final, by rw [haccept, List.append_nil], ?_⟩
    rintro outcome ⟨⟩
    exact ⟨rfl, rfl⟩

/-- The outer queue ends after the open group. -/
theorem Standing.verdict_of_last (h : d.Standing items taken verdict last) {outcome : SequenceEnd}
    (hlast : last = some outcome) : verdict = some outcome := by
  cases h with
  | reading | handing | ending => cases hlast
  | stopped => exact hlast

/-- The outer queue of a producer that has stopped has its end. -/
theorem Standing.last_of_stopped (h : d.Standing items taken verdict last)
    (hphase : d.split.phase = .stopped) : ∃ outcome, last = some outcome := by
  cases h with
  | reading hother | handing hother | ending hother => cases hother.symm.trans hphase
  | stopped => exact ⟨_, rfl⟩

/-- The queue of each part delivers how a group of the plan begins. Once it has an end, it delivers
all of the group, and at last every queue has one. -/
theorem Ordered.fills_plan (hordered : d.Ordered (cutAfter taken) verdict)
    (hstanding : d.Standing items taken verdict last) {k : Nat} {part : List WorkerReply}
    (hpart : (cutAfter taken).parts[k]? = some part) :
    ∃ ended replies ending, Fills d.split.groups d.inner k part ended ∧
      (SplitPlan.of items).groups[k]? = some (replies, ending) ∧ part <+: replies ∧
      (∀ outcome, ended = some outcome → part = replies ∧ outcome = ending) ∧
      (ended = none → verdict = none) := by
  obtain ⟨more, final, haccept, hverdict⟩ := hstanding.accepts
  rcases Cut.getElem?_parts hpart with hclosed | ⟨hrest, rfl, rfl⟩
  · refine ⟨some (.ok ()), part, .ok (), hordered.queued.closed k part hclosed,
      SplitPlan.getElem?_groups_closed haccept (closed_cutAfter_append hclosed more),
      List.prefix_rfl, ?_, nofun⟩
    rintro outcome ⟨⟩
    exact ⟨rfl, rfl⟩
  · have hfills := hordered.queued.opened hrest
    cases verdict with
    | none =>
      obtain ⟨replies, hreplies, hprefix⟩ := parts_cutAfter_append hpart more
      rw [← SplitPlan.map_fst_groups haccept, List.getElem?_map] at hreplies
      obtain ⟨⟨_, ending⟩, hgroup, rfl⟩ := Option.map_eq_some_iff.1 hreplies
      exact ⟨none, _, ending, hfills, hgroup, hprefix, nofun, fun _ => rfl⟩
    | some outcome =>
      obtain ⟨rfl, rfl⟩ := hverdict outcome rfl
      rw [List.append_nil] at haccept
      refine ⟨some _, (cutAfter taken).rest, _, hfills,
        SplitPlan.getElem?_groups_rest haccept hrest, List.prefix_rfl, ?_, nofun⟩
      rintro outcome ⟨⟩
      exact ⟨rfl, (SplitPlan.outcome_of haccept).symm⟩

/-- What the caller has read agrees with the plan. -/
theorem Sound.follows (h : Sound items d) : d.Follows (SplitPlan.of items) := by
  obtain ⟨taken, verdict, last, hordered, ⟨-, announced, hannounces, hdelivers⟩, hstanding⟩ := h
  refine ⟨?_, ?_, hordered.unread⟩
  · intro k group first hk
    have hannounced : announced[k]? = some (group, first) := by
      obtain ⟨more, rfl⟩ := hdelivers.got_prefix
      rw [List.getElem?_append_left (List.getElem?_eq_some_iff.1 hk).1, hk]
    obtain ⟨hgroup, part, hpart, hhead⟩ := hannounces.head k group first hannounced
    obtain ⟨ended, replies, ending, ⟨q, -, -, hq⟩, hplan, ⟨more, rfl⟩, hends, -⟩ :=
      hordered.fills_plan hstanding hpart
    refine ⟨hgroup, part ++ more, ending, hplan, ?_, ?_, ?_⟩
    · rw [List.head?_append, hhead]
      rfl
    · exact hq.got_prefix.trans (List.prefix_append _ _)
    · intro outcome houtcome
      obtain ⟨hgot, hended⟩ := hq.of_outcome houtcome
      obtain ⟨hpart', hending⟩ := hends outcome hended
      exact ⟨hgot.trans hpart', hending⟩
  · intro outcome houtcome
    obtain ⟨hgot, hlast⟩ := hdelivers.of_outcome houtcome
    obtain ⟨more, final, haccept, hverdict⟩ := hstanding.accepts
    obtain ⟨rfl, rfl⟩ := hverdict outcome (hstanding.verdict_of_last hlast)
    rw [List.append_nil] at haccept
    refine ⟨?_, (SplitPlan.outcome_of haccept).symm⟩
    rw [hgot, hannounces.length, ← SplitPlan.map_fst_groups haccept, List.length_map]

/-! ## Where nothing happens any more -/

/-- A producer that is settled waits for something. -/
theorem Settled.step_eq_none (h : d.Settled) : d.split.step = none := by
  cases hstep : d.split.step with
  | none => rfl
  | some split =>
    have hsame := (h .step).2
    simp only [apply, hstep] at hsame
    exact absurd hsame (Splitter.ne_of_step hstep)

/-- All of the stream has arrived. -/
theorem Settled.ended (h : d.Settled) : d.split.ended = true := by
  have harrive := h .arrive
  cases hinput : d.input with
  | nil =>
    simp only [apply, hinput] at harrive
    exact (congrArg Splitter.ended harrive.2).symm
  | cons item rest =>
    simp only [apply, hinput] at harrive
    have := congrArg List.length harrive.1
    simp at this

/-- Nothing new comes out of the outer queue. -/
theorem Settled.outer (h : d.Settled) (hcancelled : d.split.cancelled = false) :
    (d.split.outer.recv false).2 = d.split.outer :=
  Splitter.recv_outer_eq hcancelled (h .nextGroup).2

/-- Nothing new comes out of the queue of a group that was handed out. -/
theorem Settled.group (h : d.Settled) (hcancelled : d.split.cancelled = false) {group : Nat}
    (hgroup : group < d.split.handedOut) {q : Queue WorkerReply}
    (hq : d.split.groups[group]? = some q) (hreader : q.readerGone = false) :
    (q.recv false).2 = q := by
  have hsame := (h (.recv group)).2
  simp only [apply, Splitter.recv_of_handedOut hcancelled hgroup hq hreader] at hsame
  exact Splitter.eq_of_setGroup hq hsame

/-- A producer that waits has stopped, once all of the stream has arrived and nothing new comes out
of the outer queue. -/
theorem Sound.stopped (h : Sound items d) (hstep : d.split.step = none)
    (hended : d.split.ended = true) (houter : (d.split.outer.recv false).2 = d.split.outer) :
    d.split.phase = .stopped := by
  obtain ⟨taken, verdict, last, hordered, ⟨hslot, announced, hannounces, hdelivers⟩,
    hstanding⟩ := h
  have hbuffer := (hdelivers.of_recv_eq houter).2
  have hroom : d.split.outer.hasRoom = true := by simp [Queue.hasRoom, hslot, hbuffer]
  cases hstanding with
  | stopped hphase => exact hphase
  | handing hphase =>
    rw [Splitter.step_of_handing hphase hordered.cancelled, if_pos hroom] at hstep
    cases hstep
  | ending hphase hwaiting =>
    rw [Splitter.step_of_ending hphase hordered.cancelled hwaiting, if_pos hroom] at hstep
    cases hstep
  | reading hphase =>
    rw [Splitter.step_of_reading hphase hordered.cancelled] at hstep
    split at hstep
    · cases hstep
    · cases hstep
    · rw [if_pos hended] at hstep
      cases hstep

/-- Once the producer has stopped and nothing new comes out of the outer queue, the caller was
handed all groups of the plan. A group of which nothing new comes either was read to its end. -/
theorem Sound.exhausted (h : Sound items d) (hphase : d.split.phase = .stopped)
    (houter : (d.split.outer.recv false).2 = d.split.outer) :
    d.outer.got.length = (SplitPlan.of items).groups.length ∧
      d.outer.outcome = some (SplitPlan.of items).outcome ∧
      ∀ (k : Nat) (replies : List WorkerReply) (ending : SequenceEnd),
        (SplitPlan.of items).groups[k]? = some (replies, ending) →
        k < d.split.handedOut ∧ ∃ q, d.split.groups[k]? = some q ∧ q.readerGone = false ∧
          ((q.recv false).2 = q → d.inner k = ⟨replies, some ending⟩) := by
  obtain ⟨taken, verdict, last, hordered, ⟨hslot, announced, hannounces, hdelivers⟩,
    hstanding⟩ := h
  obtain ⟨outcome, hlast⟩ := hstanding.last_of_stopped hphase
  have hread := (hdelivers.of_recv_eq houter).1
  obtain ⟨more, final, haccept, hverdict⟩ := hstanding.accepts
  obtain ⟨rfl, rfl⟩ := hverdict outcome (hstanding.verdict_of_last hlast)
  rw [List.append_nil] at haccept
  have hlength : d.outer.got.length = (cutAfter taken).parts.length := by
    rw [hread, hannounces.length]
  refine ⟨?_, ?_, ?_⟩
  · rw [hlength, ← SplitPlan.map_fst_groups haccept, List.length_map]
  · rw [hread, hlast, SplitPlan.outcome_of haccept]
  · intro k replies ending hplan
    have hpart : (cutAfter taken).parts[k]? = some replies := by
      rw [← SplitPlan.map_fst_groups haccept, List.getElem?_map, hplan]
      rfl
    obtain ⟨ended, replies', ending', ⟨q, hq, -, hdelivers'⟩, hplan', -, hends, hnever⟩ :=
      hordered.fills_plan hstanding hpart
    cases hplan.symm.trans hplan'
    have hgroup : k < d.split.handedOut := by
      rw [hordered.handedOut, hlength]
      exact (List.getElem?_eq_some_iff.1 hpart).1
    refine ⟨hgroup, q, hq, hdelivers'.reader, fun hrecv => ?_⟩
    have hinner := (hdelivers'.of_recv_eq hrecv).1
    cases ended with
    | none =>
      rw [hstanding.verdict_of_last hlast] at hnever
      cases hnever rfl
    | some ended =>
      obtain ⟨-, rfl⟩ := hends ended rfl
      exact hinner

/-- Where nothing happens any more the caller has read all of the plan. -/
theorem Sound.complete (h : Sound items d) (hsettled : d.Settled) :
    d.Complete (SplitPlan.of items) := by
  have hcancelled : d.split.cancelled = false := by
    obtain ⟨_, _, _, hordered, -⟩ := h
    exact hordered.cancelled
  have houter := hsettled.outer hcancelled
  have hphase := h.stopped hsettled.step_eq_none hsettled.ended houter
  obtain ⟨hgroups, hended, hread⟩ := h.exhausted hphase houter
  refine ⟨hgroups, hended, fun k replies ending hplan => ?_⟩
  obtain ⟨hk, q, hq, hreader, hinner⟩ := hread k replies ending hplan
  exact hinner (hsettled.group hcancelled hk hq hreader)

/-- Whatever the schedule, the caller of a split is handed the groups of the plan, and reads their
replies and their ends. It never reads anything else, and once nothing happens any more it has read
all of it, which every schedule comes to in the end. The groups of the plan hold the accepted
replies, each once and in order, and their sequence ends cleanly exactly if the whole stream is
accepted with no group left open. -/
theorem refines_plan (items : List (Except Cause WorkerReply)) (es : List DemuxEvent) :
    ((SplitPlan.of items).groups.map Prod.fst).flatten = acceptedReplies items ∧
      ((SplitPlan.of items).outcome = .ok () ↔
        items = (acceptedReplies items).map .ok ∧
          (cutAfter (Tracker.start.accept items).1).rest = []) ∧
      ((start items).run es).Follows (SplitPlan.of items) ∧
      (((start items).run es).Settled → ((start items).run es).Complete (SplitPlan.of items)) ∧
      ∃ es', ((start items).run (es ++ es')).Settled := by
  have hsound := sound_run items es
  obtain ⟨es', hsettled⟩ := exists_settled ((start items).run es)
  rw [← run_append] at hsettled
  exact ⟨SplitPlan.flatten_groups items, SplitPlan.outcome_eq_ok_iff items, hsound.follows,
    hsound.complete, es', hsettled⟩

end Demux

end Sidecar
