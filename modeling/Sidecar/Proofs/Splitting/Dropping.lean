import Sidecar.Proofs.Splitting.Teardown

/-!
# What the reader of one group does is nothing to the others

Two callers that take the groups of a split in the same way can still treat the groups differently:
read a group late, or in part, or drop it unread. What they have in common are the events that are
`LiveEvent.isShared`. The splits are then the same but for the queues of the groups
(`Splitter.Alike`), since both go on like one whose caller has dropped all groups, so that the
caller is answered the same when it asks for the next group (`LiveSplit.outer_eq_of_shared`).

What is in the queue of a group, and how it ends, is settled by what the splits have in common too
(`Demux.Sound.carries`), and so two readers of a group have read of the same sequence
(`Reading.Agrees`). Until the caller drops the groups that sequence is the one that is planned for
the stream, on every schedule (`LiveSplit.Live.begins`).
-/

namespace Sidecar

/-! ## Two readers of one sequence -/

namespace Reading

variable {α : Type}

/-- What was read is how a sequence begins, and its end, if it was read, comes after all of it. -/
structure Begins (r : Reading α) (whole : List α × SequenceEnd) : Prop where
  got : r.got <+: whole.1
  ended : ∀ outcome, r.outcome = some outcome → r.got = whole.1 ∧ outcome = whole.2

/-- Two readings agree: one has got what the other has got, and perhaps more. A reading that has
come to an end has got the most, and two that have are the same. -/
structure Agrees (r r' : Reading α) : Prop where
  comparable : r.got <+: r'.got ∨ r'.got <+: r.got
  left : r.outcome.isSome → r'.got <+: r.got
  right : r'.outcome.isSome → r.got <+: r'.got
  same : r.outcome.isSome → r'.outcome.isSome → r = r'

variable {r r' : Reading α} {whole : List α × SequenceEnd}

/-- A reading is what was got, and the end. -/
theorem eq_of (hgot : r.got = r'.got) (houtcome : r.outcome = r'.outcome) : r = r' := by
  cases r
  cases r'
  cases hgot
  cases houtcome
  rfl

/-- Where nothing was read, every sequence can follow. -/
theorem Begins.start (whole : List α × SequenceEnd) : (start : Reading α).Begins whole :=
  ⟨List.nil_prefix, nofun⟩

/-- Of a reading that has ended the whole sequence is known. -/
theorem Begins.eq (h : r.Begins whole) (hended : r.outcome.isSome) :
    r = ⟨whole.1, some whole.2⟩ := by
  obtain ⟨o, ho⟩ := Option.isSome_iff_exists.1 hended
  obtain ⟨hgot, rfl⟩ := h.ended o ho
  exact eq_of hgot ho

/-- Readings of one sequence agree. -/
theorem Begins.agrees (h : r.Begins whole) (h' : r'.Begins whole) : r.Agrees r' where
  comparable := List.prefix_or_prefix_of_prefix h.got h'.got
  left hended := by
    rw [h.eq hended]
    exact h'.got
  right hended := by
    rw [h'.eq hended]
    exact h.got
  same hended hended' := (h.eq hended).trans (h'.eq hended').symm

end Reading

/-! ## Splits that are the same but for the queues of the groups -/

namespace Splitter

variable {s s' : Splitter}

/-- The splits are the same but for the queues of the groups, of which there are as many. -/
def Alike (s s' : Splitter) : Prop :=
  ∃ groups, s' = { s with groups } ∧ groups.length = s.groups.length

/-- A split whose caller drops all groups is mirrored by all that are like it. -/
theorem Alike.mirrors (h : s.Alike s') :
    { s with groups := s.groups.map Queue.dropReader }.Mirrors s' := by
  obtain ⟨groups, rfl, hlength⟩ := h
  refine ⟨groups, rfl, by simp [hlength], ?_⟩
  intro k q hq hreader
  rw [List.getElem?_map] at hq
  obtain ⟨q', -, rfl⟩ := Option.map_eq_some_iff.1 hq
  cases hreader

theorem Alike.refl (s : Splitter) : s.Alike s := ⟨s.groups, rfl, rfl⟩

/-- Splits that are like a third one are like each other. -/
theorem Alike.trans_left {b : Splitter} (h : b.Alike s) (h' : b.Alike s') : s.Alike s' := by
  obtain ⟨groups, rfl, hlength⟩ := h
  obtain ⟨groups', rfl, hlength'⟩ := h'
  exact ⟨groups', rfl, hlength'.trans hlength.symm⟩

/-- The producers take the same steps. -/
theorem Alike.step (h : s.Alike s') :
    (s.step = none ∧ s'.step = none) ∨
      ∃ t t', s.step = some t ∧ s'.step = some t' ∧ t.Alike t' := by
  rcases (Alike.refl s).mirrors.step with ⟨hnone, hstep⟩ | ⟨b, t, hb, hstep, groups, rfl, hgroups⟩
  · rcases h.mirrors.step with ⟨-, hstep'⟩ | ⟨b, t', hb, -⟩
    · exact .inl ⟨hstep, hstep'⟩
    · exact absurd (hnone.symm.trans hb) nofun
  · rcases h.mirrors.step with ⟨hnone, -⟩ | ⟨b', t', hb', hstep', groups', rfl, hgroups'⟩
    · exact absurd (hnone.symm.trans hb) nofun
    · cases hb.symm.trans hb'
      exact .inr ⟨_, _, hstep, hstep', groups', rfl, by simp [hgroups.length, hgroups'.length]⟩

/-- The same group is handed out. -/
theorem Alike.nextGroup (h : s.Alike s') :
    s'.nextGroup.1 = s.nextGroup.1 ∧ s.nextGroup.2.Alike s'.nextGroup.2 := by
  obtain ⟨groups, rfl, hlength⟩ := h
  unfold Splitter.nextGroup
  simp only
  obtain ⟨received, outer⟩ := s.outer.recv s.cancelled
  cases received <;> exact ⟨rfl, groups, rfl, hlength⟩

/-- The caller drops the groups. -/
theorem Alike.dropGroups (h : s.Alike s') : s.dropGroups.Alike s'.dropGroups := by
  obtain ⟨groups, rfl, hlength⟩ := h
  exact ⟨_, rfl, by simp [Splitter.dropGroups, Splitter.halt, hlength]⟩

/-- The reader of a group reads, or goes. -/
theorem Alike.setGroups (h : s.Alike s') {groups : List (Queue WorkerReply)}
    (hlength : groups.length = s'.groups.length) : s.Alike { s' with groups } := by
  obtain ⟨groups', rfl, hlength'⟩ := h
  exact ⟨groups, rfl, hlength.trans hlength'⟩

end Splitter

/-- Does an event reach more than the reader of one group? -/
def LiveEvent.isShared : LiveEvent → Bool
  | .recv _ | .dropGroup _ => false
  | .arrive _ | .finish | .step | .cancel | .dropGroups | .nextGroup => true

/-- The same arrives. -/
theorem arrivals_shared (es : List LiveEvent) :
    arrivals (es.filter LiveEvent.isShared) = arrivals es := by
  induction es with
  | nil => rfl
  | cons e es ih =>
    cases e with
    | arrive item => exact congrArg (item :: ·) ih
    | finish => rfl
    | step | cancel | dropGroups | dropGroup | nextGroup | recv => exact ih

namespace LiveSplit

variable {d d' : LiveSplit} {es es' : List LiveEvent}

/-- The splits are the same but for the queues of the groups, and the caller was handed the same
groups. -/
def Alike (d d' : LiveSplit) : Prop := d.split.Alike d'.split ∧ d'.outer = d.outer

namespace Alike

/-- An event that reaches more than the reader of one group does the same to both. -/
theorem apply (h : d.Alike d') {e : LiveEvent} (hshared : e.isShared = true) :
    (d.apply e).Alike (d'.apply e) := by
  obtain ⟨hsplit, houter⟩ := h
  cases e with
  | arrive item =>
    obtain ⟨groups, heq, hlength⟩ := hsplit
    refine ⟨⟨groups, ?_, ?_⟩, houter⟩
    · simp only [LiveSplit.apply, heq, Splitter.arrive_eq]
      rfl
    · simpa only [LiveSplit.apply, Splitter.arrive_eq] using hlength
  | finish | cancel =>
    obtain ⟨groups, heq, hlength⟩ := hsplit
    refine ⟨⟨groups, ?_, hlength⟩, houter⟩
    simp only [LiveSplit.apply, heq]
    rfl
  | step =>
    rcases hsplit.step with ⟨hnone, hnone'⟩ | ⟨t, t', ht, ht', halike⟩
    · simp only [LiveSplit.apply, hnone, hnone']
      exact ⟨hsplit, houter⟩
    · simp only [LiveSplit.apply, ht, ht']
      exact ⟨halike, houter⟩
  | dropGroups => exact ⟨hsplit.dropGroups, houter⟩
  | nextGroup =>
    have hreader : d'.split.outer.readerGone = d.split.outer.readerGone := by
      obtain ⟨groups, heq, -⟩ := hsplit
      rw [heq]
    obtain ⟨hreceived, hnext⟩ := hsplit.nextGroup
    simp only [LiveSplit.apply, hreader]
    split
    · exact ⟨hsplit, houter⟩
    · exact ⟨hnext, by simp only [houter, hreceived]⟩
  | dropGroup | recv => cases hshared

/-- The reader of a group reads, or goes. -/
theorem apply_right (h : d.Alike d') {e : LiveEvent} (hshared : e.isShared = false) :
    d.Alike (d'.apply e) := by
  obtain ⟨hsplit, houter⟩ := h
  cases e with
  | recv k =>
    rw [apply_recv]
    split
    · exact ⟨hsplit, houter⟩
    · exact ⟨hsplit.setGroups List.length_set, houter⟩
  | dropGroup k =>
    refine ⟨?_, houter⟩
    simp only [LiveSplit.apply, Splitter.dropGroup]
    split
    · exact hsplit.setGroups (List.length_modify ..)
    · exact hsplit
  | arrive | finish | step | cancel | dropGroups | nextGroup => cases hshared

/-- A run is like the run of what it shares with others. -/
theorem run (h : d.Alike d') (es : List LiveEvent) :
    (d.run (es.filter LiveEvent.isShared)).Alike (d'.run es) := by
  induction es generalizing d d' with
  | nil => exact h
  | cons e es ih =>
    cases hshared : e.isShared with
    | true =>
      rw [List.filter_cons_of_pos hshared]
      exact ih (h.apply hshared)
    | false =>
      rw [List.filter_cons_of_neg (by simp [hshared])]
      exact ih (h.apply_right hshared)

end Alike

/-- A run is like the run of what it shares with others. -/
theorem alike_shared (es : List LiveEvent) :
    (start.run (es.filter LiveEvent.isShared)).Alike (start.run es) :=
  Alike.run ⟨.refl _, rfl⟩ es

/-- Callers that take the groups in the same way are answered the same when they do. -/
theorem outer_eq_of_shared (h : es'.filter LiveEvent.isShared = es.filter LiveEvent.isShared) :
    (start.run es').outer = (start.run es).outer := by
  rw [(alike_shared es).2, ← h, (alike_shared es').2]

end LiveSplit

/-! ## What the queue of a group has to give -/

/-- The replies and the end that are planned for a group. -/
def SplitPlan.group (p : SplitPlan) (k : Nat) : List WorkerReply × SequenceEnd :=
  p.groups[k]?.getD ([], .ok ())

namespace Demux

variable {items : List (Except Cause WorkerReply)} {d d' : Demux}
  {taken taken' : List (WorkerReply × Bool)} {verdict verdict' last last' : Option SequenceEnd}

/-- What was read of a group is how the planned one begins. -/
theorem Follows.begins {p : SplitPlan} (h : d.Follows p) (k : Nat) :
    (d.inner k).Begins (p.group k) := by
  cases hget : d.outer.got[k]? with
  | none =>
    rw [h.unread k (List.getElem?_eq_none_iff.1 hget)]
    exact Reading.Begins.start _
  | some handed =>
    obtain ⟨-, replies, ending, hplan, -, hgot, hends⟩ := h.groups k _ _ hget
    have hgroup : p.group k = (replies, ending) := by simp [SplitPlan.group, hplan]
    rw [hgroup]
    exact ⟨hgot, hends⟩

/-- No more groups are handed out than are planned. -/
theorem Follows.length_le {p : SplitPlan} (h : d.Follows p) :
    d.outer.got.length ≤ p.groups.length := by
  refine Nat.not_lt.1 fun hlt => ?_
  obtain ⟨-, replies, ending, hplan, -⟩ :=
    h.groups p.groups.length _ _ (List.getElem?_eq_getElem hlt)
  exact Nat.lt_irrefl _ (List.getElem?_eq_some_iff.1 hplan).1

/-- The groups of a plan are handed out in one order. -/
theorem Follows.precedes {p : SplitPlan} (h : d.Follows p) (h' : d'.Follows p)
    (hle : d.outer.got.length ≤ d'.outer.got.length) : d.outer.got <+: d'.outer.got := by
  refine List.prefix_iff_getElem?.2 fun k hk => ?_
  have hget := List.getElem?_eq_getElem hk
  have hget' := List.getElem?_eq_getElem (Nat.lt_of_lt_of_le hk hle)
  obtain ⟨hgroup, replies, ending, hplan, hhead, -⟩ := h.groups k _ _ hget
  obtain ⟨hgroup', replies', ending', hplan', hhead', -⟩ := h'.groups k _ _ hget'
  cases hplan.symm.trans hplan'
  rw [hget']
  exact congrArg some
    (Prod.ext (hgroup'.trans hgroup.symm) (Option.some.inj (hhead'.symm.trans hhead)))

/-- Callers that are handed the groups of a plan agree. -/
theorem Follows.agrees_outer {p : SplitPlan} (h : d.Follows p) (h' : d'.Follows p) :
    d.outer.Agrees d'.outer := by
  have hall {d : Demux} (h : d.Follows p) (hended : d.outer.outcome.isSome) :
      d.outer.got.length = p.groups.length ∧ d.outer.outcome = some p.outcome := by
    obtain ⟨o, ho⟩ := Option.isSome_iff_exists.1 hended
    obtain ⟨hlength, rfl⟩ := h.ended o ho
    exact ⟨hlength, ho⟩
  refine ⟨?_, ?_, ?_, ?_⟩
  · exact (Nat.le_total _ _).imp (h.precedes h') (h'.precedes h)
  · exact fun hended => h'.precedes h ((hall h hended).1 ▸ h'.length_le)
  · exact fun hended => h.precedes h' ((hall h' hended).1 ▸ h.length_le)
  · intro hended hended'
    obtain ⟨hlength, houtcome⟩ := hall h hended
    obtain ⟨hlength', houtcome'⟩ := hall h' hended'
    have hgot := (h.precedes h' (Nat.le_of_eq (hlength.trans hlength'.symm))).eq_of_length
      (hlength.trans hlength'.symm)
    exact Reading.eq_of hgot (houtcome.trans houtcome'.symm)

/-- How far the producer has come is known from what it is doing and from what is left of the
stream. -/
theorem Standing.unique (h : d.Standing items taken verdict last)
    (h' : d'.Standing items taken' verdict' last') (hsplit : d.split.Alike d'.split)
    (hinput : d'.input = d.input) : taken' = taken ∧ verdict' = verdict := by
  obtain ⟨groups, heq, -⟩ := hsplit
  have hphase : d'.split.phase = d.split.phase := by rw [heq]
  have htracker : d'.split.tracker = d.split.tracker := by rw [heq]
  have hleft : d'.split.arrived ++ d'.input = d.split.arrived ++ d.input := by rw [heq, hinput]
  have haccepting {xs xs' : List (WorkerReply × Bool)}
      (hxs : Tracker.Accepting items xs d.split.tracker (d.split.arrived ++ d.input))
      (hxs' : Tracker.Accepting items xs' d'.split.tracker (d'.split.arrived ++ d'.input)) :
      xs' = xs := by
    rw [htracker, hleft] at hxs'
    exact List.append_cancel_right (congrArg Prod.fst (hxs'.symm.trans hxs))
  have hconcluding {xs xs' : List (WorkerReply × Bool)} {o o' : SequenceEnd}
      (hxs : Concludes items xs o) (hxs' : Concludes items xs' o') : xs' = xs ∧ o' = o := by
    obtain ⟨final, haccept, rfl⟩ := hxs
    obtain ⟨final', haccept', rfl⟩ := hxs'
    cases haccept.symm.trans haccept'
    exact ⟨rfl, rfl⟩
  cases h with
  | reading hp hreads =>
    cases h' with
    | reading hp' hreads' => exact ⟨haccepting hreads.accepting hreads'.accepting, rfl⟩
    | handing hp' | ending hp' | stopped hp' => cases hp'.symm.trans (hphase.trans hp)
  | handing hp hoffers =>
    cases h' with
    | handing hp' hoffers' =>
      obtain ⟨-, rfl, rfl⟩ := SplitPhase.handing.inj (hp'.symm.trans (hphase.trans hp))
      exact ⟨List.append_cancel_right (haccepting hoffers.accepting hoffers'.accepting), rfl⟩
    | reading hp' | ending hp' | stopped hp' => cases hp'.symm.trans (hphase.trans hp)
  | ending hp _ hconcludes =>
    cases h' with
    | ending hp' _ hconcludes' =>
      obtain ⟨htaken, houtcome⟩ := hconcluding hconcludes hconcludes'
      exact ⟨htaken, congrArg some houtcome⟩
    | reading hp' | handing hp' | stopped hp' => cases hp'.symm.trans (hphase.trans hp)
  | stopped hp hconcludes =>
    cases h' with
    | stopped hp' hconcludes' =>
      obtain ⟨htaken, houtcome⟩ := hconcluding hconcludes hconcludes'
      exact ⟨htaken, congrArg some houtcome⟩
    | reading hp' | handing hp' | ending hp' => cases hp'.symm.trans (hphase.trans hp)

/-- The queue of a group delivers a sequence, or the group was not handed out and nothing was read
of it. -/
def Carries (d : Demux) (k : Nat) (content : List WorkerReply) (outcome : Option SequenceEnd) :
    Prop :=
  Fills d.split.groups d.inner k content outcome ∨ (d.split.handedOut ≤ k ∧ d.inner k = .start)

/-- Splits that are the same but for the queues of the groups deliver the same. -/
theorem Sound.carries (h : Sound items d) (h' : Sound items d') (hsplit : d.split.Alike d'.split)
    (hinput : d'.input = d.input) (k : Nat) :
    ∃ content outcome, d.Carries k content outcome ∧ d'.Carries k content outcome := by
  obtain ⟨taken, verdict, last, hordered, hannounced, hstanding⟩ := h
  obtain ⟨taken', verdict', last', hordered', hannounced', hstanding'⟩ := h'
  obtain ⟨rfl, rfl⟩ := hstanding.unique hstanding' hsplit hinput
  cases hpart : (cutAfter taken').parts[k]? with
  | some part =>
    rcases Cut.getElem?_parts hpart with hclosed | ⟨hrest, rfl, rfl⟩
    · exact ⟨part, some (.ok ()), .inl (hordered.queued.closed k part hclosed),
        .inl (hordered'.queued.closed k part hclosed)⟩
    · exact ⟨_, verdict', .inl (hordered.queued.opened hrest),
        .inl (hordered'.queued.opened hrest)⟩
  | none =>
    have hle : (cutAfter taken').parts.length ≤ k := List.getElem?_eq_none_iff.1 hpart
    have hgot := Nat.le_trans hannounced.length_got_le hle
    have hgot' := Nat.le_trans hannounced'.length_got_le hle
    exact ⟨[], none, .inr ⟨hordered.handedOut ▸ hgot, hordered.unread k hgot⟩,
      .inr ⟨hordered'.handedOut ▸ hgot', hordered'.unread k hgot'⟩⟩

end Demux

/-! ## What readers get after the caller has dropped the groups -/

/-- Hearing more answers is hearing them one after the other. -/
theorem Queue.Delivers.answers {α : Type} {q : Queue α} {heard : List (Received α)}
    {content : List α} {outcome : Option SequenceEnd}
    (h : q.Delivers (.of heard) content outcome) (n : Nat) :
    ∃ q' : Queue α, q'.Delivers (.of (heard ++ q.answers false n)) content outcome := by
  induction n generalizing q heard with
  | zero => exact ⟨q, by simpa [Queue.answers] using h⟩
  | succ n ih =>
    have hnext := h.recv
    rw [← Reading.of_hear] at hnext
    obtain ⟨q', hq'⟩ := ih hnext
    rw [List.append_assoc] at hq'
    exact ⟨q', hq'⟩

/-- To its reader a queue without an end whose writer goes is one that fails. -/
theorem Queue.Delivers.begins {α : Type} {q : Queue α} {heard : List (Received α)}
    {content : List α} {outcome : Option SequenceEnd}
    (h : q.Delivers (.of heard) content outcome) (n : Nat) :
    (Reading.of (heard ++ q.dropWriter.answers false n)).Begins
      (content, outcome.getD (.error .abandoned)) := by
  have hfailed : ∃ (q' : Queue α) (o : SequenceEnd), outcome.getD (.error .abandoned) = o ∧
      q'.Delivers (.of heard) content (some o) ∧
      q.dropWriter.answers false n = q'.answers false n := by
    cases outcome with
    | some o => exact ⟨q.dropWriter, o, rfl, h.dropWriter, rfl⟩
    | none =>
      obtain ⟨hnone, hfinished, pending, hcontent, hbuffer⟩ := h.going
      refine ⟨{ q with buffer := q.buffer ++ [.fail .abandoned] }, _, rfl,
        ⟨h.reader, nofun, .inl ⟨hnone, hfinished, pending, hcontent, ?_⟩⟩, ?_⟩
      · rw [hbuffer]
        rfl
      · rw [answers_of_abandoned (q := q.dropWriter) hfinished hbuffer rfl,
          answers_of_failed (q := { q with buffer := q.buffer ++ [.fail .abandoned] }) hfinished
            (by rw [hbuffer])]
  obtain ⟨q', o, ho, hq', hanswers⟩ := hfailed
  obtain ⟨q'', hq''⟩ := hq'.answers n
  rw [hanswers, ho]
  refine ⟨hq''.got_prefix, fun outcome houtcome => ?_⟩
  obtain ⟨hgot, hended⟩ := hq''.of_outcome houtcome
  exact ⟨hgot, (Option.some.inj hended).symm⟩

/-! ## Two callers -/

namespace LiveSplit

variable {items later : List (Except Cause WorkerReply)} {d : LiveSplit}
  {es es' after : List LiveEvent} {k : Nat}

/-- Until the split is stopped, what was read of a group is how the planned one begins. -/
theorem Live.begins (h : Live items later es d) (k : Nat) :
    (d.read k).Begins ((SplitPlan.of items).group k) := by
  obtain ⟨-, groups, -, hsound⟩ := h
  exact hsound.follows.begins k

/-- Once the caller has dropped the groups, what was read of a group is how that begins which its
queue had to give. Without an end the group is abandoned. -/
theorem begins_dropGroups {groups : List (Queue WorkerReply)}
    {input : List (Except Cause WorkerReply)} {content : List WorkerReply}
    {outcome : Option SequenceEnd} (hcancelled : d.split.cancelled = false)
    (hgroups : Hides d.split.groups groups)
    (h : (d.undropped groups input).Carries k content outcome) (hnever : LiveEvent.cancel ∉ after) :
    (((d.apply .dropGroups).run after).read k).Begins
      (content, outcome.getD (.error .abandoned)) := by
  have hstopped : (d.apply .dropGroups).split.Stopped := .inr ⟨rfl, rfl, rfl⟩
  have hdropped : (d.apply .dropGroups).split.group? k =
      (d.split.group? k).map Queue.dropWriter := Splitter.group?_dropGroups _ _
  unfold read
  cases hgroup : d.split.group? k with
  | none =>
    -- Nobody reads the group any more.
    rw [hgroup] at hdropped
    rw [inner_run_of_none hstopped hdropped]
    rcases h with ⟨q, hq, -, hdelivers⟩ | ⟨-, hstart⟩
    · refine ⟨hdelivers.got_prefix, fun o ho => ?_⟩
      obtain ⟨hgot, hended⟩ := hdelivers.of_outcome ho
      rw [hended]
      exact ⟨hgot, rfl⟩
    · have hread : Reading.of (d.inner k) = .start := hstart
      exact hread ▸ Reading.Begins.start _
  | some q =>
    rw [hgroup] at hdropped
    rw [inner_run hstopped hdropped (.inr ⟨rfl, hnever⟩)]
    obtain ⟨hk, hq, hreader⟩ := Splitter.group?_eq_some_iff.1 hgroup
    rcases h with ⟨q', hq', -, hdelivers⟩ | ⟨hle, -⟩
    · cases (hgroups.queue k q hq hreader).symm.trans hq'
      show (Reading.of (d.inner k ++ q.dropWriter.answers d.split.cancelled _)).Begins _
      rw [hcancelled]
      exact hdelivers.begins _
    · exact absurd hk (Nat.not_lt.2 hle)

/-- Callers to whom the same arrives are handed groups and read replies that agree, as long as
neither of them stops its split. -/
theorem agree_of_arrivals (hcancel : LiveEvent.cancel ∉ es) (hdrop : LiveEvent.dropGroups ∉ es)
    (hcancel' : LiveEvent.cancel ∉ es') (hdrop' : LiveEvent.dropGroups ∉ es')
    (harrivals : arrivals es' = arrivals es) :
    (start.run es).handed.Agrees (start.run es').handed ∧
      ∀ k, ((start.run es).read k).Agrees ((start.run es').read k) := by
  have hlive := Live.of_start [] hcancel hdrop
  have hlive' := Live.of_start [] hcancel' hdrop'
  rw [expected_nil] at hlive hlive'
  rw [harrivals] at hlive'
  refine ⟨?_, fun k => (hlive.begins k).agrees (hlive'.begins k)⟩
  obtain ⟨-, groups, -, hsound⟩ := hlive
  obtain ⟨-, groups', -, hsound'⟩ := hlive'
  exact hsound.follows.agrees_outer hsound'.follows

/-- Runs that share their events share what arrives. -/
theorem arrivals_eq_of_shared
    (h : es'.filter LiveEvent.isShared = es.filter LiveEvent.isShared) :
    arrivals es' = arrivals es := by
  rw [← arrivals_shared es', h, arrivals_shared]

/-- An event that one of them shares with the other comes in both. -/
theorem mem_of_shared {e : LiveEvent} (hshared : e.isShared = true)
    (h : es'.filter LiveEvent.isShared = es.filter LiveEvent.isShared) (hmem : e ∈ es') :
    e ∈ es :=
  (List.mem_filter.1 (h ▸ List.mem_filter.2 ⟨hmem, hshared⟩)).1

/-- Such an event comes at the same point of what they share. -/
theorem exists_split_of_shared {before after : List LiveEvent} {e : LiveEvent}
    (hshared : e.isShared = true)
    (h : es'.filter LiveEvent.isShared = (before ++ e :: after).filter LiveEvent.isShared) :
    ∃ before' after', es' = before' ++ e :: after' ∧
      before'.filter LiveEvent.isShared = before.filter LiveEvent.isShared := by
  rw [List.filter_append, List.filter_cons_of_pos hshared] at h
  obtain ⟨before', rest, rfl, hbefore, hrest⟩ := List.filter_eq_append_iff.1 h
  obtain ⟨between, after', rfl, hbetween, -, -⟩ := List.filter_eq_cons_iff.1 hrest
  refine ⟨before' ++ between, after', by simp, ?_⟩
  rw [List.filter_append, hbefore, List.filter_eq_nil_iff.2 hbetween, List.append_nil]

/-- Callers that drop the groups after they have taken them in the same way have queues to read that
have the same to give. -/
theorem agree_dropGroups {before before' after' : List LiveEvent}
    (hcancel : LiveEvent.cancel ∉ before ++ .dropGroups :: after)
    (hcancel' : LiveEvent.cancel ∉ before' ++ .dropGroups :: after')
    (hdrop : LiveEvent.dropGroups ∉ before) (hdrop' : LiveEvent.dropGroups ∉ before')
    (hshared : before'.filter LiveEvent.isShared = before.filter LiveEvent.isShared) (k : Nat) :
    ((start.run (before ++ .dropGroups :: after)).read k).Agrees
      ((start.run (before' ++ .dropGroups :: after')).read k) := by
  rw [List.mem_append, List.mem_cons, not_or, not_or] at hcancel hcancel'
  have hlive := Live.of_start [] hcancel.1 hdrop
  have hlive' := Live.of_start [] hcancel'.1 hdrop'
  rw [expected_nil] at hlive hlive'
  have hcancelled := hlive.frame.1
  have hcancelled' := hlive'.frame.1
  have halike : (start.run before).split.Alike (start.run before').split :=
    (alike_shared before).1.trans_left (hshared ▸ (alike_shared before').1)
  rw [arrivals_eq_of_shared hshared] at hlive'
  obtain ⟨-, groups, hgroups, hsound⟩ := hlive
  obtain ⟨-, groups', hgroups', hsound'⟩ := hlive'
  have hundropped : { (start.run before).split with groups }.Alike
      { (start.run before').split with groups := groups' } := by
    obtain ⟨queues, heq, hlength⟩ := halike
    refine ⟨groups', by rw [heq], ?_⟩
    rw [hgroups.length, hgroups'.length, heq, hlength]
  obtain ⟨content, outcome, hcarries, hcarries'⟩ :=
    hsound.carries hsound' hundropped (by simp [undropped, expected]) k
  rw [run_append, run_cons, run_append, run_cons]
  exact (begins_dropGroups hcancelled hgroups hcarries hcancel.2.2).agrees
    (begins_dropGroups hcancelled' hgroups' hcarries' hcancel'.2.2)

/-- Callers that take the groups in the same way read replies that agree, whatever they do with
single groups. -/
theorem agree_of_shared (hcancel : LiveEvent.cancel ∉ es)
    (hshared : es'.filter LiveEvent.isShared = es.filter LiveEvent.isShared) (k : Nat) :
    ((start.run es).read k).Agrees ((start.run es').read k) := by
  have hcancel' : LiveEvent.cancel ∉ es' := fun h => hcancel (mem_of_shared rfl hshared h)
  by_cases hdrop : LiveEvent.dropGroups ∈ es
  case neg =>
    have hdrop' : LiveEvent.dropGroups ∉ es' := fun h => hdrop (mem_of_shared rfl hshared h)
    exact (agree_of_arrivals hcancel hdrop hcancel' hdrop' (arrivals_eq_of_shared hshared)).2 k
  case pos =>
    obtain ⟨before, after, rfl, hfirst⟩ := List.eq_append_cons_of_mem hdrop
    obtain ⟨before', after', rfl, hbefore⟩ := exists_split_of_shared rfl hshared
    exact agree_dropGroups hcancel hcancel' hfirst
      (fun h => hfirst (mem_of_shared rfl hbefore h)) hbefore k

end LiveSplit

end Sidecar
