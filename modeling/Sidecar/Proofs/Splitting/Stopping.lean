import Sidecar.Proofs.Splitting.Running
import Sidecar.Proofs.Splitting.Refinement

/-!
# A split that was stopped

Once a split is cancelled, or its caller has dropped the groups, its producer does nothing more but
go away (`Splitter.Stopped`). The queue of a group then changes only by what its own reader does
(`LiveSplit.group?_apply`), so what this reader will be answered is settled (`Queue.answers`): a
cancelled one hears of that once, and one whose group has no end hears that it was abandoned, after
everything that was in the queue.
-/

namespace Sidecar

/-! ## What reading a queue comes to -/

/-- The answers to so many reads, where these items are to be read, then this error, if there is
one, and then nothing more. -/
def answersTo {α : Type} : Nat → List α → Option QueueError → List (Received α)
  | 0, _, _ => []
  | n + 1, a :: items, error => .item a :: answersTo n items error
  | n + 1, [], some e => .error e :: answersTo n [] none
  | n + 1, [], none => .ended :: answersTo n [] none

namespace Queue

variable {α : Type} {q : Queue α}

/-- What so many reads of a queue are answered, if only the reader does something. -/
def answers (q : Queue α) (stopped : Bool) : Nat → List (Received α)
  | 0 => []
  | n + 1 => (q.recv stopped).1.heard ++ (q.recv stopped).2.answers stopped n

/-- Nothing is read after an end. -/
theorem answers_of_finished (hfinished : q.finished = true) (stopped : Bool) (n : Nat) :
    q.answers stopped n = answersTo n [] none := by
  induction n with
  | zero => rfl
  | succ n ih =>
    have hrecv : q.recv stopped = (.ended, q) := by simp [recv, hfinished]
    rw [answers, hrecv]
    simp only [ih, answersTo]
    rfl

/-- Of a cancelled queue nothing is read but that it was cancelled. -/
theorem answers_stopped (q : Queue α) (n : Nat) :
    q.answers true n = answersTo n [] (if q.finished then none else some .cancelled) := by
  cases hfinished : q.finished with
  | true => exact answers_of_finished hfinished true n
  | false =>
    cases n with
    | zero => rfl
    | succ n =>
      rw [answers, recv_stopped hfinished]
      simp only [answers_of_finished (q := { q with finished := true }) rfl]
      rfl

/-- A queue whose items are followed by what is read as an error: the items, and then the error. -/
theorem answers_of_error {items : List α} {rest : List (Entry α)} {e : QueueError} {q' : Queue α}
    (hfinished : q.finished = false) (hbuffer : q.buffer = items.map .item ++ rest)
    (hrest : { q with buffer := rest }.recv false = (.error e, q')) (hended : q'.finished = true)
    (n : Nat) : q.answers false n = answersTo n items (some e) := by
  induction n generalizing q items with
  | zero => rfl
  | succ n ih =>
    cases items with
    | nil =>
      have hitems : q.buffer = rest := hbuffer
      have hrecv : q.recv false = (.error e, q') := by rw [← hrest, ← hitems]
      rw [answers, hrecv]
      simp only [answers_of_finished hended]
      rfl
    | cons a items =>
      have hnext : q.buffer = .item a :: (items.map .item ++ rest) := hbuffer
      rw [answers, recv_item hfinished hnext]
      simp only [ih (q := { q with buffer := items.map .item ++ rest }) hfinished rfl hrest]
      rfl

/-- A queue whose writer has gone without an end: its items, and then the error. -/
theorem answers_of_abandoned {items : List α} (hfinished : q.finished = false)
    (hbuffer : q.buffer = items.map .item) (hwriter : q.writerGone = true) (n : Nat) :
    q.answers false n = answersTo n items (some .abandoned) := by
  have hall : q.buffer = items.map .item ++ [] := by rw [hbuffer, List.append_nil]
  exact answers_of_error hfinished hall (recv_abandoned hfinished rfl hwriter) rfl n

/-- A queue that has failed: its items, and then the error. -/
theorem answers_of_failed {items : List α} {e : QueueError} (hfinished : q.finished = false)
    (hbuffer : q.buffer = items.map .item ++ [.fail e]) (n : Nat) :
    q.answers false n = answersTo n items (some e) :=
  answers_of_error hfinished hbuffer (recv_fail hfinished rfl) rfl n

/-- Reading does not depend on what is outstanding. -/
theorem recv_setWaiting (q : Queue α) (waiting : Option (Entry α)) (stopped : Bool) :
    ({ q with waiting } : Queue α).recv stopped =
      ((q.recv stopped).1, { (q.recv stopped).2 with waiting }) := by
  unfold recv
  simp only
  split
  · rfl
  · split
    · rfl
    · split <;> try rfl
      split <;> rfl

theorem answers_setWaiting (q : Queue α) (waiting : Option (Entry α)) (stopped : Bool) (n : Nat) :
    ({ q with waiting } : Queue α).answers stopped n = q.answers stopped n := by
  induction n generalizing q with
  | zero => rfl
  | succ n ih => simp only [answers, recv_setWaiting, ih]

/-- A writer that goes away changes nothing for a reader that only hears of the cancellation, nor
where it has gone before. -/
theorem answers_dropWriter {stopped : Bool} (h : stopped = true ∨ q.writerGone = true) (n : Nat) :
    q.dropWriter.answers stopped n = q.answers stopped n := by
  rcases h with rfl | hwriter
  · rw [answers_stopped, answers_stopped]
    rfl
  · have hsame : q.dropWriter = { q with waiting := none } := by
      simp [dropWriter, ← hwriter]
    rw [hsame, answers_setWaiting]

end Queue

/-! ## The reader of a group -/

namespace Splitter

variable {s : Splitter} {group : Nat}

/-- The producer stops. Only the writer of the group goes. -/
theorem group?_halt (s : Splitter) (group : Nat) :
    s.halt.group? group = (s.group? group).map Queue.dropWriter := by
  show (if group < s.handedOut then
      ((s.groups.map Queue.dropWriter)[group]?).filter (fun q => !q.readerGone) else none) = _
  unfold group?
  by_cases hgroup : group < s.handedOut
  · rw [if_pos hgroup, if_pos hgroup, List.getElem?_map]
    cases s.groups[group]? with
    | none => rfl
    | some q =>
      cases hreader : q.readerGone <;> simp [Option.filter, hreader, Queue.dropWriter]
  · rw [if_neg hgroup, if_neg hgroup]
    rfl

/-- The caller drops the groups. Of a group that was handed out only the writer goes. -/
theorem group?_dropGroups (s : Splitter) (group : Nat) :
    s.dropGroups.group? group = (s.group? group).map Queue.dropWriter := by
  rw [← group?_halt]
  show (if group < s.handedOut then
      ((s.halt.groups.mapIdx fun i q => if i < s.handedOut then q else q.dropReader)[group]?).filter
        (fun q => !q.readerGone) else none) = s.halt.group? group
  unfold group?
  show _ = if group < s.handedOut then _ else none
  split
  next hgroup => simp [List.getElem?_mapIdx, hgroup]
  next => rfl

/-- The caller drops the reader of a group. -/
theorem group?_dropGroup (s : Splitter) (k group : Nat) :
    (s.dropGroup k).group? group = if k = group then none else s.group? group := by
  unfold dropGroup
  split
  next hk =>
    simp only [group?, List.getElem?_modify]
    split
    next hgroup =>
      split
      next => cases s.groups[group]? <;> simp [Queue.dropReader]
      next => simp
    next hgroup => simp
  next hk =>
    split
    next heq => simp [group?, ← heq, hk]
    next => rfl

/-- The caller reads from a group. -/
theorem group?_set {k : Nat} {q q' : Queue WorkerReply} (hq : s.group? k = some q)
    (hreader : q'.readerGone = q.readerGone) :
    ({ s with groups := s.groups.set k q' } : Splitter).group? group =
      if k = group then some q' else s.group? group := by
  obtain ⟨hk, hget, hthere⟩ := group?_eq_some_iff.1 hq
  have hlength := (List.getElem?_eq_some_iff.1 hget).1
  simp only [group?, List.getElem?_set]
  split
  next hgroup =>
    split
    next => simp [hreader, hthere]
    next => rfl
  next hgroup =>
    split
    next heq => exact absurd (heq ▸ hk) hgroup
    next => rfl

/-! ## Nothing but going away -/

/-- The split was stopped: it is cancelled, or its caller has dropped the groups. -/
def Stopped (s : Splitter) : Prop :=
  s.cancelled = true ∨ (s.phase = .stopped ∧ s.current = none ∧ s.outer.readerGone = true)

/-- A producer that is cancelled goes away. -/
theorem step_of_cancelled (hcancelled : s.cancelled = true) :
    s.step = none ∨ s.step = some s.halt := by
  unfold step
  rw [hcancelled]
  cases s.phase with
  | stopped => exact .inl rfl
  | reading | handing group first completes | ending => exact .inr rfl

/-- The producer of a split that was stopped goes away, if it has not yet. -/
theorem Stopped.step (h : s.Stopped) : s.step = none ∨ s.step = some s.halt := by
  rcases h with hcancelled | ⟨hphase, -⟩
  · exact step_of_cancelled hcancelled
  · exact .inl (step_of_stopped hphase)

/-- Once the split is stopped, no more groups are handed out. -/
theorem Stopped.nextGroup (h : s.Stopped) (hreader : s.outer.readerGone = false) :
    s.nextGroup = ((s.outer.recv true).1, { s with outer := (s.outer.recv true).2 }) := by
  have hcancelled : s.cancelled = true := by
    rcases h with hcancelled | ⟨-, -, hgone⟩
    · exact hcancelled
    · rw [hreader] at hgone
      cases hgone
  unfold Splitter.nextGroup
  rw [hcancelled]
  cases hfinished : s.outer.finished with
  | true => simp [Queue.recv, hfinished]
  | false => simp [Queue.recv, hfinished]

end Splitter

namespace LiveSplit

variable {d : LiveSplit}

/-- The producer of a split that was stopped goes away, if it has not yet. -/
theorem apply_step (h : d.split.Stopped) :
    d.apply .step = if d.split.step.isSome then { d with split := d.split.halt } else d := by
  rcases h.step with hstep | hstep <;> simp only [apply, hstep] <;> rfl

/-- A caller that asks for more groups after the split was stopped only hears of that. -/
theorem apply_nextGroup (h : d.split.Stopped) :
    d.apply .nextGroup =
      if d.split.outer.readerGone then d
      else
        { d with
          split := { d.split with outer := (d.split.outer.recv true).2 }
          outer := d.outer ++ (d.split.outer.recv true).1.heard } := by
  simp only [apply]
  split
  next => rfl
  next hreader => rw [h.nextGroup (by simpa using hreader)]

/-- Asking for a reply reads the queue of the group, if the caller has its reader. -/
theorem apply_recv (d : LiveSplit) (k : Nat) :
    d.apply (.recv k) =
      match d.split.group? k with
      | none => d
      | some q =>
        { d with
          split :=
            { d.split with groups := d.split.groups.set k (q.recv d.split.cancelled).2 }
          inner := fun j =>
            if j = k then d.inner j ++ (q.recv d.split.cancelled).1.heard else d.inner j } := by
  simp only [apply]
  cases hgroup : d.split.group? k with
  | none => rw [Splitter.recv_of_group?_none hgroup]
  | some q => rw [Splitter.recv_of_group? hgroup]

/-- A split that was stopped stays stopped. -/
theorem stopped_apply (h : d.split.Stopped) (e : LiveEvent) : (d.apply e).split.Stopped := by
  cases e with
  | arrive item =>
    simp only [apply, Splitter.arrive_eq]
    exact h
  | finish => exact h
  | step =>
    rw [apply_step h]
    split
    next =>
      rcases h with hcancelled | ⟨-, -, hreader⟩
      · exact .inl hcancelled
      · exact .inr ⟨rfl, rfl, hreader⟩
    next => exact h
  | cancel => exact .inl rfl
  | dropGroups => exact .inr ⟨rfl, rfl, rfl⟩
  | dropGroup group =>
    simp only [apply, Splitter.dropGroup]
    split <;> exact h
  | nextGroup =>
    rw [apply_nextGroup h]
    split
    next => exact h
    next hreader =>
      rcases h with hcancelled | ⟨-, -, hgone⟩
      · exact .inl hcancelled
      · exact absurd hgone hreader
  | recv group =>
    rw [apply_recv]
    split <;> exact h

/-- What an event does to the queue of a group whose reader the caller has, once the split was
stopped. -/
theorem group?_apply (h : d.split.Stopped) (e : LiveEvent) (group : Nat) :
    (d.apply e).split.group? group =
      match e with
      | .recv k =>
        if k = group then
          (d.split.group? group).map fun q => (q.recv d.split.cancelled).2
        else d.split.group? group
      | .dropGroup k => if k = group then none else d.split.group? group
      | .dropGroups => (d.split.group? group).map Queue.dropWriter
      | .step =>
        if d.split.step.isSome then (d.split.group? group).map Queue.dropWriter
        else d.split.group? group
      | .arrive _ | .finish | .cancel | .nextGroup => d.split.group? group := by
  cases e with
  | arrive item =>
    simp only [apply, Splitter.arrive_eq]
    rfl
  | finish | cancel => rfl
  | step =>
    rw [apply_step h]
    simp only
    split
    next => exact Splitter.group?_halt _ _
    next => rfl
  | dropGroups => exact Splitter.group?_dropGroups _ _
  | dropGroup k => exact Splitter.group?_dropGroup _ _ _
  | nextGroup =>
    rw [apply_nextGroup h]
    split <;> rfl
  | recv k =>
    rw [apply_recv]
    cases hk : d.split.group? k with
    | none =>
      simp only
      split
      next heq =>
        rw [← heq, hk]
        rfl
      next => rfl
    | some q =>
      simp only
      rw [Splitter.group?_set hk (q.recv_frame _).2.2.2]
      split
      next heq =>
        rw [← heq, hk]
        rfl
      next => rfl

/-- Only reading from a group is answered to its reader. -/
theorem inner_apply (d : LiveSplit) (e : LiveEvent) (group : Nat) :
    (d.apply e).inner group =
      match e with
      | .recv k =>
        if k = group then
          d.inner group ++
            (d.split.group? group).elim [] fun q => (q.recv d.split.cancelled).1.heard
        else d.inner group
      | _ => d.inner group := by
  cases e with
  | arrive | finish | cancel | dropGroups | dropGroup => rfl
  | step | nextGroup =>
    simp only [apply]
    split <;> rfl
  | recv k =>
    rw [apply_recv]
    cases hk : d.split.group? k with
    | none =>
      simp only
      split
      next heq => simp [← heq, hk]
      next => rfl
    | some q =>
      simp only [eq_comm (a := group)]
      split
      next heq => simp [← heq, hk]
      next => rfl

/-- Only a cancellation cancels. -/
theorem cancelled_apply (h : d.split.Stopped) {e : LiveEvent}
    (hcancel : d.split.cancelled = true ∨ e ≠ .cancel) :
    (d.apply e).split.cancelled = d.split.cancelled := by
  cases e with
  | arrive item => simp only [apply, Splitter.arrive_eq]
  | finish | dropGroups => rfl
  | step =>
    rw [apply_step h]
    split <;> rfl
  | cancel =>
    rcases hcancel with hcancelled | hne
    · exact hcancelled.symm
    · exact absurd rfl hne
  | dropGroup group =>
    simp only [apply, Splitter.dropGroup]
    split <;> rfl
  | nextGroup =>
    rw [apply_nextGroup h]
    split <;> rfl
  | recv group =>
    rw [apply_recv]
    split <;> rfl

/-- What an event does to the outer queue, once the split was stopped. -/
theorem outerQueue_apply (h : d.split.Stopped) (e : LiveEvent) :
    (d.apply e).split.outer =
      match e with
      | .step => if d.split.step.isSome then d.split.outer.dropWriter else d.split.outer
      | .dropGroups => d.split.outer.dropWriter.dropReader
      | .nextGroup =>
        if d.split.outer.readerGone then d.split.outer
        else (d.split.outer.recv true).2
      | .arrive _ | .finish | .cancel | .dropGroup _ | .recv _ => d.split.outer := by
  cases e with
  | arrive item => simp only [apply, Splitter.arrive_eq]
  | finish | cancel | dropGroups => rfl
  | step =>
    rw [apply_step h]
    simp only
    split <;> rfl
  | dropGroup group =>
    simp only [apply, Splitter.dropGroup]
    split <;> rfl
  | nextGroup =>
    rw [apply_nextGroup h]
    simp only
    split <;> rfl
  | recv group =>
    rw [apply_recv]
    split <;> rfl

/-- Only asking for the next group is answered to the reader of the groups. -/
theorem outer_apply (h : d.split.Stopped) (e : LiveEvent) :
    (d.apply e).outer =
      match e with
      | .nextGroup =>
        if d.split.outer.readerGone then d.outer
        else d.outer ++ (d.split.outer.recv true).1.heard
      | _ => d.outer := by
  cases e with
  | arrive | finish | cancel | dropGroups | dropGroup => rfl
  | step =>
    rw [apply_step h]
    split <;> rfl
  | nextGroup =>
    rw [apply_nextGroup h]
    simp only
    split <;> rfl
  | recv group =>
    rw [apply_recv]
    split <;> rfl

/-! ## What the readers are still answered -/

/-- Without a reader nothing more is heard of a group. -/
theorem inner_run_of_none (h : d.split.Stopped) {group : Nat}
    (hgroup : d.split.group? group = none) (es : List LiveEvent) :
    (d.run es).inner group = d.inner group := by
  induction es generalizing d with
  | nil => rfl
  | cons e es ih =>
    have hnext : (d.apply e).split.group? group = none := by
      rw [group?_apply h, hgroup]
      cases e <;> simp
    rw [run_cons, ih (stopped_apply h e) hnext, inner_apply, hgroup]
    cases e <;> simp

/-- The reader of a group is answered what there is in the queue of the group, where the split is
cancelled, or the producer has gone and no cancellation comes. -/
theorem inner_run {group : Nat} {q : Queue WorkerReply} {es : List LiveEvent}
    (h : d.split.Stopped) (hgroup : d.split.group? group = some q)
    (hrest : d.split.cancelled = true ∨ (q.writerGone = true ∧ LiveEvent.cancel ∉ es)) :
    (d.run es).inner group =
      d.inner group ++ q.answers d.split.cancelled (groupReads group es) := by
  induction es generalizing d q with
  | nil => simp [groupReads, Queue.answers]
  | cons e es ih =>
    have hstopped := stopped_apply h e
    have hcancelled : (d.apply e).split.cancelled = d.split.cancelled := by
      refine cancelled_apply h (hrest.imp_right ?_)
      rintro ⟨-, hnever⟩ rfl
      exact hnever (List.mem_cons_self ..)
    have hrest' (q' : Queue WorkerReply) (hq' : q.writerGone = true → q'.writerGone = true) :
        (d.apply e).split.cancelled = true ∨ (q'.writerGone = true ∧ LiveEvent.cancel ∉ es) := by
      rw [hcancelled]
      refine hrest.imp_right ?_
      rintro ⟨hwriter, hnever⟩
      exact ⟨hq' hwriter, fun hmem => hnever (List.mem_cons_of_mem _ hmem)⟩
    have hdrop (n : Nat) : q.dropWriter.answers d.split.cancelled n =
        q.answers d.split.cancelled n := Queue.answers_dropWriter (hrest.imp_right And.left) n
    have hnext := group?_apply h e group
    have hheard := inner_apply d e group
    rw [hgroup] at hnext hheard
    rw [run_cons]
    cases e with
    | arrive | finish | cancel | nextGroup =>
      rw [ih hstopped hnext (hrest' q id), hheard, hcancelled]
      rfl
    | dropGroups =>
      rw [ih hstopped hnext (hrest' _ fun _ => rfl), hheard, hcancelled, hdrop]
      rfl
    | step =>
      simp only at hnext hheard
      split at hnext
      next =>
        rw [ih hstopped hnext (hrest' _ fun _ => rfl), hheard, hcancelled, hdrop]
        rfl
      next =>
        rw [ih hstopped hnext (hrest' q id), hheard, hcancelled]
        rfl
    | dropGroup k =>
      simp only at hnext hheard
      split at hnext
      next heq =>
        rw [inner_run_of_none hstopped hnext, hheard]
        simp [groupReads, heq, Queue.answers]
      next hne =>
        rw [ih hstopped hnext (hrest' q id), hheard, hcancelled]
        simp [groupReads, hne]
    | recv k =>
      simp only at hnext hheard
      split at hnext
      next heq =>
        have hframe := (q.recv_frame d.split.cancelled).2.2.1
        rw [ih hstopped hnext (hrest' _ fun hwriter => hframe.trans hwriter), hheard, hcancelled]
        simp [groupReads, heq, Queue.answers]
      next hne =>
        rw [ih hstopped hnext (hrest' q id), hheard, hcancelled]
        simp [groupReads, hne]

/-- Without the groups nothing more is heard of them. -/
theorem outer_run_of_readerGone (h : d.split.Stopped)
    (hreader : d.split.outer.readerGone = true) (es : List LiveEvent) :
    (d.run es).outer = d.outer := by
  induction es generalizing d with
  | nil => rfl
  | cons e es ih =>
    have hnext : (d.apply e).split.outer.readerGone = true := by
      rw [outerQueue_apply h]
      cases e with
      | step => simp only; split <;> exact hreader
      | nextGroup => simp only [hreader, if_true]
      | dropGroups => rfl
      | arrive | finish | cancel | dropGroup | recv => exact hreader
    have hheard : (d.apply e).outer = d.outer := by
      rw [outer_apply h, hreader]
      cases e <;> rfl
    rw [run_cons, ih (stopped_apply h e) hnext, hheard]

/-- The caller of a split that was cancelled is answered that, once, when it asks for more
groups. -/
theorem outer_run (hcancelled : d.split.cancelled = true)
    (hreader : d.split.outer.readerGone = false) (es : List LiveEvent) :
    (d.run es).outer = d.outer ++ d.split.outer.answers true (outerReads es) := by
  induction es generalizing d with
  | nil => simp [outerReads, Queue.answers]
  | cons e es ih =>
    have h : d.split.Stopped := .inl hcancelled
    have hcancelled' := (cancelled_apply h (e := e) (.inl hcancelled)).trans hcancelled
    have hqueue := outerQueue_apply h e
    have hheard := outer_apply h e
    rw [run_cons]
    cases e with
    | arrive | finish | cancel | dropGroup | recv =>
      simp only at hqueue hheard
      rw [ih hcancelled' (by rw [hqueue, hreader]), hheard, hqueue]
      rfl
    | step =>
      simp only at hqueue hheard
      split at hqueue
      next =>
        rw [ih hcancelled' (by rw [hqueue]; exact hreader), hheard, hqueue,
          Queue.answers_dropWriter (.inl rfl)]
        rfl
      next =>
        rw [ih hcancelled' (by rw [hqueue, hreader]), hheard, hqueue]
        rfl
    | dropGroups =>
      rw [outer_run_of_readerGone (.inl hcancelled') (by rw [hqueue]; rfl), hheard]
      simp [outerReads, Queue.answers]
    | nextGroup =>
      simp only [hreader, Bool.false_eq_true, if_false] at hqueue hheard
      have hreader' : (d.split.outer.recv true).2.readerGone = false :=
        (d.split.outer.recv_frame true).2.2.2.trans hreader
      rw [ih hcancelled' (by rw [hqueue, hreader']), hheard, hqueue, List.append_assoc]
      rfl

end LiveSplit

end Sidecar
