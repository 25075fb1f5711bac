import Sidecar.Proofs.Splitting.Dropping

/-!
# A split comes to its end, whoever stays to read it

Whatever has happened to a split, its callers can go on until nothing is left to be read
(`LiveSplit.exists_idle`), as every step of the producer and every read that brings something leaves
less to do. Once the stream has ended, and unless somebody has stopped the split, everything that is
planned for the stream was read then, but for the groups that were dropped
(`LiveSplit.finished_run`). So a group that nobody reads, or whose reader goes, keeps nobody from
reading the others.
-/

namespace Sidecar

/-- Does an event only take what is there, on the part of the producer or of a reader? -/
def LiveEvent.isReading : LiveEvent → Bool
  | .step | .nextGroup | .recv _ => true
  | .arrive _ | .finish | .cancel | .dropGroups | .dropGroup _ => false

namespace LiveSplit

variable {items : List (Except Cause WorkerReply)} {d : LiveSplit} {es : List LiveEvent} {k : Nat}

/-- Nothing happens any more unless something new comes in, or somebody goes. -/
def Idle (d : LiveSplit) : Prop :=
  ∀ e : LiveEvent, e.isReading = true → (d.apply e).split = d.split

/-- All of a plan was read, but for the groups that were dropped: the groups were handed out in
order, each with its first reply, the end of their sequence was seen, and the others were read to
their ends. -/
structure Finished (d : LiveSplit) (p : SplitPlan) (dropped : Nat → Prop) : Prop where
  length : d.handed.got.length = p.groups.length
  ended : d.handed.outcome = some p.outcome
  groups : ∀ (k group : Nat) (first : WorkerReply), d.handed.got[k]? = some (group, first) →
    group = k ∧ (p.group k).1.head? = some first
  replies : ∀ (k : Nat) (replies : List WorkerReply) (ending : SequenceEnd),
    p.groups[k]? = some (replies, ending) → ¬ dropped k → d.read k = ⟨replies, some ending⟩

/-! ## Reading on -/

/-- Such an event changes nothing, or leaves less to do. -/
theorem apply_eq_or_effort_lt (d : LiveSplit) {e : LiveEvent} (hreading : e.isReading = true) :
    (d.apply e).split = d.split ∨ (d.apply e).split.effort < d.split.effort := by
  cases e with
  | step =>
    simp only [apply]
    split
    next => exact .inl rfl
    next split hstep => exact .inr (Splitter.effort_lt_of_step hstep)
  | nextGroup =>
    simp only [apply]
    split
    · exact .inl rfl
    · exact d.split.nextGroup_eq_or_effort_lt
  | recv k =>
    simp only [apply]
    split
    next => exact .inl rfl
    next received split hrecv => exact Splitter.recv_eq_or_effort_lt hrecv
  | arrive | finish | cancel | dropGroups | dropGroup => cases hreading

/-- Reading on comes to where nothing happens any more. -/
theorem exists_idle (d : LiveSplit) :
    ∃ more : List LiveEvent, (∀ e ∈ more, e.isReading = true) ∧ (d.run more).Idle :=
  exists_foldl_resting apply (fun d => d.split.effort) (fun d' d => d'.split = d.split)
    (fun e => e.isReading = true) (fun d _ hreading => d.apply_eq_or_effort_lt hreading) d

/-! ## What only some events change -/

/-- The end of the stream stays. -/
theorem ended_apply (h : d.split.ended = true) (e : LiveEvent) :
    (d.apply e).split.ended = true := by
  cases e with
  | arrive item =>
    simp only [apply, Splitter.arrive_eq]
    exact h
  | finish => rfl
  | step =>
    simp only [apply]
    cases hstep : d.split.step with
    | none => exact h
    | some split => exact (Splitter.ended_of_step hstep).trans h
  | cancel | dropGroups => exact h
  | dropGroup k =>
    simp only [apply, Splitter.dropGroup]
    split <;> exact h
  | nextGroup =>
    simp only [apply, Splitter.nextGroup_eq_recv]
    split <;> exact h
  | recv k =>
    rw [apply_recv]
    split <;> exact h

theorem ended_run (h : d.split.ended = true ∨ LiveEvent.finish ∈ es) :
    (d.run es).split.ended = true := by
  induction es generalizing d with
  | nil => exact h.resolve_right nofun
  | cons e es ih =>
    refine ih ?_
    rcases h with hended | hfinish
    · exact .inl (ended_apply hended e)
    · rcases List.mem_cons.1 hfinish with rfl | hlater
      · exact .inl rfl
      · exact .inr hlater

/-- Whoever was handed a group, or is going to be, has its reader. -/
def Attended (d : LiveSplit) (k : Nat) : Prop :=
  ∀ q, d.split.groups[k]? = some q → q.readerGone = false

/-- Only dropping a group, or all groups, takes the reader away. -/
theorem Attended.apply (h : d.Attended k) {e : LiveEvent} (hdrop : e ≠ .dropGroups)
    (hkeep : e ≠ .dropGroup k) : (d.apply e).Attended k := by
  intro q' hq'
  cases e with
  | arrive item =>
    simp only [LiveSplit.apply, Splitter.arrive_eq] at hq'
    exact h q' hq'
  | finish | cancel => exact h q' hq'
  | step =>
    simp only [LiveSplit.apply] at hq'
    cases hstep : d.split.step with
    | none =>
      rw [hstep] at hq'
      exact h q' hq'
    | some split =>
      rw [hstep] at hq'
      obtain ⟨taken, rest, -, hspares⟩ := Splitter.spares_of_step hstep
      refine Bool.eq_false_iff.2 fun hgone => ?_
      obtain ⟨q, hq, hbefore⟩ := hspares.reader hq' hgone
      exact Bool.false_ne_true ((h q hq).symm.trans hbefore)
  | dropGroups => exact absurd rfl hdrop
  | dropGroup j =>
    have hne : j ≠ k := fun heq => hkeep (heq ▸ rfl)
    simp only [LiveSplit.apply, Splitter.dropGroup] at hq'
    split at hq'
    · simp only at hq'
      rw [List.getElem?_modify_ne _ _ hne] at hq'
      exact h q' hq'
    · exact h q' hq'
  | nextGroup =>
    simp only [LiveSplit.apply, Splitter.nextGroup_eq_recv] at hq'
    split at hq' <;> exact h q' hq'
  | recv j =>
    rw [apply_recv] at hq'
    split at hq'
    next => exact h q' hq'
    next q hgroup =>
      obtain ⟨-, -, hreader⟩ := Splitter.group?_eq_some_iff.1 hgroup
      simp only [List.getElem?_set] at hq'
      split at hq'
      next heq =>
        split at hq'
        · cases hq'
          exact (q.recv_frame _).2.2.2.trans hreader
        · cases hq'
      next => exact h q' hq'

theorem Attended.run (h : d.Attended k) (hdrop : LiveEvent.dropGroups ∉ es)
    (hkeep : LiveEvent.dropGroup k ∉ es) : (d.run es).Attended k := by
  induction es generalizing d with
  | nil => exact h
  | cons e es ih =>
    rw [List.mem_cons, not_or] at hdrop hkeep
    exact ih (h.apply (Ne.symm hdrop.1) (Ne.symm hkeep.1)) hdrop.2 hkeep.2

/-! ## Where nothing happens any more -/

/-- A producer that is idle waits for something. -/
theorem Idle.step_eq_none (h : d.Idle) : d.split.step = none := by
  cases hstep : d.split.step with
  | none => rfl
  | some split =>
    have hsame := h .step rfl
    simp only [apply, hstep] at hsame
    exact absurd hsame (Splitter.ne_of_step hstep)

/-- Nothing new comes out of the outer queue. -/
theorem Idle.outer (h : d.Idle) (hcancelled : d.split.cancelled = false)
    (hreader : d.split.outer.readerGone = false) :
    (d.split.outer.recv false).2 = d.split.outer := by
  have hsame := h .nextGroup rfl
  simp only [apply, hreader, Bool.false_eq_true, if_false] at hsame
  exact Splitter.recv_outer_eq hcancelled hsame

/-- Nothing new comes out of the queue of a group that somebody can read. -/
theorem Idle.group (h : d.Idle) (hcancelled : d.split.cancelled = false)
    (hgroup : k < d.split.handedOut) {q : Queue WorkerReply}
    (hq : d.split.groups[k]? = some q) (hreader : q.readerGone = false) :
    (q.recv false).2 = q := by
  have hsame := h (.recv k) rfl
  simp only [apply, Splitter.recv_of_handedOut hcancelled hgroup hq hreader] at hsame
  exact Splitter.eq_of_setGroup hq hsame

/-- A split that nothing has stopped and that is idle after the end of the stream has given all that
was planned. -/
theorem Live.finished (h : Live items [] [] d) (hidle : d.Idle) (hended : d.split.ended = true)
    {dropped : Nat → Prop} (hattended : ∀ k, ¬ dropped k → d.Attended k) :
    d.Finished (SplitPlan.of items) dropped := by
  obtain ⟨hcancelled, hreader⟩ := h.frame
  have houter := hidle.outer hcancelled hreader
  obtain ⟨-, groups, hgroups, hsound⟩ := h
  have hstep : Splitter.step { d.split with groups } = none := by
    have hmirrors : d.split.Mirrors { d.split with groups } := ⟨groups, rfl, hgroups⟩
    rcases hmirrors.step with ⟨-, hnone⟩ | ⟨t, t', ht, -⟩
    · exact hnone
    · exact absurd (hidle.step_eq_none.symm.trans ht) nofun
  have hphase := hsound.stopped hstep hended houter
  obtain ⟨hlength, houtcome, hread⟩ := hsound.exhausted hphase houter
  refine ⟨hlength, houtcome, ?_, ?_⟩
  · intro k group first hk
    obtain ⟨hgroup, replies, ending, hplan, hhead, -⟩ := hsound.follows.groups k group first hk
    exact ⟨hgroup, by simpa [SplitPlan.group, hplan] using hhead⟩
  · intro k replies ending hplan hkept
    obtain ⟨hk, q, hq, -, hinner⟩ := hread k replies ending hplan
    have hlt : k < d.split.groups.length :=
      hgroups.length ▸ (List.getElem?_eq_some_iff.1 hq).1
    have hq' := List.getElem?_eq_getElem hlt
    have hreader' := hattended k hkept _ hq'
    cases (hgroups.queue k _ hq' hreader').symm.trans hq
    exact hinner (hidle.group hcancelled hk hq' hreader')

/-- Where nothing happens any more after the end of the stream, everything was read but for the
groups that were dropped. -/
theorem finished_run (hfinish : LiveEvent.finish ∈ es) (hcancel : LiveEvent.cancel ∉ es)
    (hdrop : LiveEvent.dropGroups ∉ es) (hidle : (start.run es).Idle) :
    (start.run es).Finished (SplitPlan.of (arrivals es)) (fun k => LiveEvent.dropGroup k ∈ es) := by
  have hlive := Live.of_start [] hcancel hdrop
  rw [expected_nil] at hlive
  exact hlive.finished hidle (ended_run (.inr hfinish))
    fun k hkeep => Attended.run (fun _ hq => by cases hq) hdrop hkeep

end LiveSplit

end Sidecar
