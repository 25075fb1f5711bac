import Sidecar.Proofs.Splitting.Keeping

/-!
# How long a split can keep going

A producer takes only so many steps by itself (`Splitter.turns`), so that `Splitter.run` comes to
where it waits for something (`Splitter.step_run`). Each step adds only so much to what the queues
owe their readers (`Splitter.owed`). So every event that changes a split, or the part of the stream
that has not arrived, uses up some of what there is to be done, and a schedule can always be
continued to where nothing happens any more (`Demux.exists_settled`).
-/

namespace Sidecar

/-! ## Queues -/

namespace Queue

variable {α : Type}

/-- What a queue owes its reader: its entries, and an end unless the reader has seen one. -/
def owed (q : Queue α) : Nat := q.buffer.length + (!q.finished).toNat

@[simp] theorem owed_dropWriter (q : Queue α) : q.dropWriter.owed = q.owed := rfl

theorem owed_send_le (q : Queue α) (stopped : Bool) (entry : Entry α) :
    (q.send stopped entry).2.owed ≤ q.owed + 1 := by
  unfold send
  split
  · exact Nat.le_succ _
  · split
    · exact Nat.le_succ _
    · split
      · simp only [owed, List.length_append, List.length_singleton]
        omega
      · exact Nat.le_succ _

theorem owed_resume_le (q : Queue α) (stopped : Bool) (entry : Entry α) :
    (q.resume stopped entry).2.owed ≤ q.owed + 1 :=
  owed_send_le { q with waiting := none } stopped entry

/-- A writer that finds room is not suspended again. -/
theorem resume_ne_suspended {q : Queue α} (hroom : q.hasRoom = true) (stopped : Bool)
    (entry : Entry α) : (q.resume stopped entry).1 ≠ .suspended := by
  have hroom' : ({ q with waiting := none } : Queue α).hasRoom = true := hroom
  unfold resume send
  split
  · exact nofun
  · split
    · exact nofun
    · exact nofun

/-- A reader that sees the end of a queue is owed one less. -/
theorem owed_lt_of_finished {q : Queue α} (hfinished : q.finished = false)
    {buffer : List (Entry α)} (hle : buffer.length ≤ q.buffer.length) :
    ({ q with buffer, finished := true } : Queue α).owed < q.owed := by
  simp only [owed, hfinished, Bool.not_true, Bool.not_false, Bool.toNat_true, Bool.toNat_false]
  omega

/-- Reading leaves the queue as it is and brings nothing, or leaves it owing less. -/
theorem recv_eq_or_owed_lt (q : Queue α) (stopped : Bool) :
    ((q.recv stopped).1.items = [] ∧ (q.recv stopped).2 = q) ∨
      (q.recv stopped).2.owed < q.owed := by
  cases hfinished : q.finished with
  | true => exact .inl (by simp [recv, hfinished, Received.items])
  | false =>
    unfold recv
    rw [hfinished]
    split
    · contradiction
    · split
      · exact .inr (owed_lt_of_finished hfinished (Nat.le_refl _))
      · split
        next hbuffer => exact .inr (by simp [owed, hbuffer, hfinished])
        next hbuffer => exact .inr (owed_lt_of_finished hfinished (by simp [hbuffer]))
        next hbuffer => exact .inr (owed_lt_of_finished hfinished (by simp [hbuffer]))
        next hbuffer =>
          split
          · exact .inr (owed_lt_of_finished hfinished (Nat.le_refl _))
          · exact .inl ⟨rfl, rfl⟩

end Queue

/-- What some queues owe their readers. -/
def owedBy (groups : List (Queue WorkerReply)) : Nat :=
  groups.foldr (fun q n => q.owed + n) 0

@[simp] theorem owedBy_cons (q : Queue WorkerReply) (groups : List (Queue WorkerReply)) :
    owedBy (q :: groups) = q.owed + owedBy groups := rfl

theorem owedBy_append (groups : List (Queue WorkerReply)) (q : Queue WorkerReply) :
    owedBy (groups ++ [q]) = owedBy groups + q.owed := by
  induction groups with
  | nil => simp [owedBy]
  | cons p groups ih =>
    rw [List.cons_append, owedBy_cons, owedBy_cons, ih]
    omega

theorem owedBy_modify_le {f : Queue WorkerReply → Queue WorkerReply} {more : Nat}
    (hf : ∀ q, (f q).owed ≤ q.owed + more) (groups : List (Queue WorkerReply)) (group : Nat) :
    owedBy (groups.modify group f) ≤ owedBy groups + more := by
  induction groups generalizing group with
  | nil => simp [owedBy]
  | cons q groups ih =>
    cases group with
    | zero =>
      have := hf q
      simp only [List.modify_zero_cons, owedBy_cons]
      omega
    | succ group =>
      have := ih group
      simp only [List.modify_succ_cons, owedBy_cons]
      omega

theorem owedBy_set_lt {groups : List (Queue WorkerReply)} {group : Nat} {q q' : Queue WorkerReply}
    (hq : groups[group]? = some q) (hlt : q'.owed < q.owed) :
    owedBy (groups.set group q') < owedBy groups := by
  induction groups generalizing group with
  | nil => simp at hq
  | cons p groups ih =>
    cases group with
    | zero =>
      simp only [List.getElem?_cons_zero, Option.some.injEq] at hq
      subst hq
      simp only [List.set_cons_zero, owedBy_cons]
      omega
    | succ group =>
      rw [List.getElem?_cons_succ] at hq
      have := ih hq
      simp only [List.set_cons_succ, owedBy_cons]
      omega

theorem owedBy_map_dropWriter (groups : List (Queue WorkerReply)) :
    owedBy (groups.map Queue.dropWriter) = owedBy groups := by
  induction groups with
  | nil => rfl
  | cons q groups ih => simp [ih]

namespace Splitter

/-! ## Running the producer -/

/-- The steps that a producer can take at most, whatever the queues are like. -/
def turns (s : Splitter) : Nat :=
  2 * s.arrived.length +
    match s.phase with
    | .reading => 2
    | .handing .. => 3
    | .ending => 1
    | .stopped => 0

theorem turns_conclude_le (s : Splitter) (entry : Entry (Nat × WorkerReply)) :
    (s.conclude entry).turns ≤ 2 * s.arrived.length + 1 := by
  unfold conclude
  split <;> simp [turns, halt]

theorem turns_failBoth_le (s : Splitter) (error : QueueError) :
    (s.failBoth error).turns ≤ 2 * s.arrived.length + 1 := by
  unfold failBoth
  split <;> exact turns_conclude_le _ _

theorem turns_takeEnd_le (s : Splitter) : s.takeEnd.turns ≤ 2 * s.arrived.length + 1 := by
  unfold takeEnd
  split
  · exact s.turns_failBoth_le _
  · exact s.turns_conclude_le _

theorem turns_deliver (s : Splitter) (group : Nat) (reply : WorkerReply) (completes : Bool) :
    (s.deliver group reply completes).turns = s.turns := by
  cases completes <;> rfl

theorem turns_handOut_le (s : Splitter) (group : Nat) (first : WorkerReply) (completes : Bool)
    (outcome : Sent × Queue (Nat × WorkerReply)) :
    (s.handOut group first completes outcome).turns ≤ 2 * s.arrived.length + 3 ∧
      (outcome.1 ≠ .suspended →
        (s.handOut group first completes outcome).turns ≤ 2 * s.arrived.length + 2) := by
  obtain ⟨sent, outer⟩ := outcome
  cases sent with
  | landed =>
    simp only [handOut, turns_deliver]
    simp [turns]
  | suspended => simp [handOut, turns]
  | refused error => simp [handOut, halt, turns]

theorem turns_takeIn_le (s : Splitter) (hphase : s.phase = .reading) (reply : WorkerReply) :
    (s.takeIn reply).turns ≤ 2 * s.arrived.length + 3 := by
  unfold takeIn
  split
  next => exact Nat.le_trans (s.turns_failBoth_le _) (by omega)
  next =>
    simp only
    split
    · exact (turns_handOut_le _ _ _ _ _).1
    · split
      · rw [turns_deliver]
        simp [turns, hphase]
      · simp [turns, hphase]

/-- A step leaves fewer steps to take. -/
theorem turns_lt_of_step {s s' : Splitter} (h : s.step = some s') : s'.turns < s.turns := by
  cases steps_of_step h with
  | halt hphase =>
    simp only [turns, halt]
    split
    next => omega
    next => omega
    next => omega
    next hstopped => exact absurd hstopped hphase
  | @takeIn reply rest hphase harrived =>
    have := turns_takeIn_le { s with arrived := rest } hphase reply
    simp only [turns, hphase, harrived, List.length_cons] at this ⊢
    omega
  | @failBoth cause rest hphase harrived =>
    have := turns_failBoth_le { s with arrived := rest } (broken cause)
    simp only [turns, hphase, harrived, List.length_cons] at this ⊢
    omega
  | takeEnd hphase =>
    have := turns_takeEnd_le s
    simp only [turns, hphase] at this ⊢
    omega
  | @handOut group first completes hphase hroom =>
    have hlands := Queue.resume_ne_suspended hroom s.cancelled (.item (group, first))
    have := (s.turns_handOut_le group first completes _).2 hlands
    simp only [turns, hphase] at this ⊢
    omega
  | conclude hphase => simp [turns, halt, hphase]

/-- Running the producer comes to where it waits for something. -/
theorem step_run (s : Splitter) : s.run.step = none := by
  refine step_settle_eq_none step turns (fun _ _ => turns_lt_of_step) _ ?_
  unfold turns
  split <;> omega

/-! ## What the producer adds to the queues -/

/-- What the queues of a split owe their readers, and the end of the stream unless it has come. -/
def owed (s : Splitter) : Nat := (!s.ended).toNat + s.outer.owed + owedBy s.groups

theorem owed_halt (s : Splitter) : s.halt.owed = s.owed := by
  simp [owed, halt, owedBy_map_dropWriter]

theorem owed_put_le (s : Splitter) (group : Nat) (entry : Entry WorkerReply) :
    (s.put group entry).owed ≤ s.owed + 1 := by
  have := owedBy_modify_le (fun q => q.owed_send_le s.cancelled entry) s.groups group
  simp only [owed, put]
  omega

theorem owed_release_le (s : Splitter) (group : Nat) : (s.release group).owed ≤ s.owed := by
  have hdrop : ∀ q : Queue WorkerReply, q.dropWriter.owed ≤ q.owed + 0 := fun _ => Nat.le_refl _
  have := owedBy_modify_le hdrop s.groups group
  simp only [owed, release]
  omega

theorem owed_deliver_le (s : Splitter) (group : Nat) (reply : WorkerReply) (completes : Bool) :
    (s.deliver group reply completes).owed ≤ s.owed + 2 := by
  have hput := s.owed_put_le group (.item reply)
  cases completes with
  | false => exact Nat.le_trans hput (by omega)
  | true =>
    have hclose := (s.put group (.item reply)).owed_put_le group .close
    have hrelease := ((s.put group (.item reply)).put group .close).owed_release_le group
    exact Nat.le_trans hrelease (by omega)

theorem owed_conclude_le (s : Splitter) (entry : Entry (Nat × WorkerReply)) :
    (s.conclude entry).owed ≤ s.owed + 1 := by
  have howed := s.outer.owed_send_le s.cancelled entry
  unfold conclude
  split
  next outer hsend =>
    rw [hsend] at howed
    simp only [owed] at howed ⊢
    omega
  next sent outer hsend =>
    rw [hsend] at howed
    rw [owed_halt]
    simp only [owed] at howed ⊢
    omega

theorem owed_failBoth_le (s : Splitter) (error : QueueError) :
    (s.failBoth error).owed ≤ s.owed + 2 := by
  unfold failBoth
  cases s.current with
  | none => exact Nat.le_trans (s.owed_conclude_le _) (by omega)
  | some group =>
    have hput := s.owed_put_le group (.fail error)
    have hrelease := (s.put group (.fail error)).owed_release_le group
    refine Nat.le_trans (owed_conclude_le _ _) ?_
    simp only
    omega

theorem owed_takeEnd_le (s : Splitter) : s.takeEnd.owed ≤ s.owed + 2 := by
  unfold takeEnd
  split
  · exact s.owed_failBoth_le _
  · exact Nat.le_trans (s.owed_conclude_le _) (by omega)

theorem owed_handOut_le (s : Splitter) (group : Nat) (first : WorkerReply) (completes : Bool)
    {outcome : Sent × Queue (Nat × WorkerReply)} (h : outcome.2.owed ≤ s.outer.owed + 1) :
    (s.handOut group first completes outcome).owed ≤ s.owed + 3 := by
  obtain ⟨sent, outer⟩ := outcome
  simp only at h
  cases sent with
  | landed =>
    refine Nat.le_trans (owed_deliver_le _ _ _ _) ?_
    simp only [owed]
    omega
  | suspended =>
    simp only [handOut, owed]
    omega
  | refused error =>
    simp only [handOut, owed_halt]
    simp only [owed]
    omega

theorem owed_takeIn_le (s : Splitter) (reply : WorkerReply) :
    (s.takeIn reply).owed ≤ s.owed + 4 := by
  unfold takeIn
  split
  next => exact Nat.le_trans (s.owed_failBoth_le _) (by omega)
  next boundary tracker _ =>
    simp only
    split
    · refine Nat.le_trans (owed_handOut_le _ _ _ _ (Queue.owed_send_le _ _ _)) ?_
      have hnew : (Queue.unbounded : Queue WorkerReply).owed = 1 := rfl
      simp only [owed, owedBy_append]
      omega
    · split
      next group _ =>
        refine Nat.le_trans (owed_deliver_le _ _ _ _) ?_
        simp only [owed]
        omega
      next =>
        simp only [owed]
        omega

/-- A step adds at most four to what the queues owe: a queue, an entry in the outer queue, a reply,
and an end. -/
theorem owed_step_le {s s' : Splitter} (h : s.step = some s') : s'.owed ≤ s.owed + 4 := by
  cases steps_of_step h with
  | halt => simp [owed_halt]
  | @takeIn reply rest => exact owed_takeIn_le { s with arrived := rest } reply
  | @failBoth cause rest =>
    exact Nat.le_trans (owed_failBoth_le { s with arrived := rest } _) (by simp [owed])
  | takeEnd => exact Nat.le_trans s.owed_takeEnd_le (by omega)
  | handOut =>
    exact Nat.le_trans (s.owed_handOut_le _ _ _ (s.outer.owed_resume_le _ _)) (by omega)
  | @conclude entry =>
    have := s.outer.owed_resume_le s.cancelled entry
    rw [owed_halt]
    simp only [owed]
    omega

/-- What is left to do of a split. A step that the producer still has to take counts for more than
what it can add to the queues. -/
def effort (s : Splitter) : Nat := 5 * s.turns + s.owed

/-- Every step of the producer leaves less to do. -/
theorem effort_lt_of_step {s s' : Splitter} (h : s.step = some s') : s'.effort < s.effort := by
  have hturns := turns_lt_of_step h
  have howed := owed_step_le h
  simp only [effort]
  omega

/-- A step changes something. -/
theorem ne_of_step {s s' : Splitter} (h : s.step = some s') : s' ≠ s :=
  fun heq => absurd (effort_lt_of_step h) (heq ▸ Nat.lt_irrefl _)

/-- An element of the stream that arrives makes two steps more at most. -/
theorem effort_arrive_le (s : Splitter) (item : Except Cause WorkerReply) :
    (s.arrive item).effort ≤ s.effort + 10 := by
  unfold arrive
  split
  · simp only [effort, turns, owed, List.length_append, List.length_singleton]
    omega
  · omega

/-- The end of the stream comes once. -/
theorem finish_of_ended {s : Splitter} (hended : s.ended = true) : s.finish = s := by
  cases s
  cases hended
  rfl

theorem effort_finish_lt {s : Splitter} (hended : s.ended = false) :
    s.finish.effort < s.effort := by
  simp only [effort, turns, owed, finish, hended, Bool.not_true, Bool.not_false, Bool.toNat_true,
    Bool.toNat_false]
  omega

/-- Asking for the next group changes nothing, or leaves less to do. -/
theorem nextGroup_eq_or_effort_lt (s : Splitter) :
    s.nextGroup.2 = s ∨ s.nextGroup.2.effort < s.effort := by
  rw [nextGroup_eq_recv]
  rcases s.outer.recv_eq_or_owed_lt s.cancelled with ⟨hitems, hsame⟩ | hlt
  · refine .inl ?_
    rw [hitems, hsame]
    rfl
  · refine .inr ?_
    simp only [effort, turns, owed]
    omega

/-- So does asking for the next reply of a group. -/
theorem recv_eq_or_effort_lt {s s' : Splitter} {group : Nat} {received : Received WorkerReply}
    (h : s.recv group = some (received, s')) : s' = s ∨ s'.effort < s.effort := by
  obtain ⟨q, -, hq, -, rfl⟩ := recv_eq_some h
  rcases q.recv_eq_or_owed_lt s.cancelled with ⟨-, hsame⟩ | hlt
  · refine .inl ?_
    obtain ⟨hlt, rfl⟩ := List.getElem?_eq_some_iff.1 hq
    rw [hsame, List.set_getElem_self]
  · have hset := owedBy_set_lt hq hlt
    refine .inr ?_
    simp only [effort, turns, owed]
    omega

/-- If asking for the next group changes nothing, nothing new comes out of the outer queue. -/
theorem recv_outer_eq {s : Splitter} (hcancelled : s.cancelled = false)
    (hsame : s.nextGroup.2 = s) : (s.outer.recv false).2 = s.outer := by
  rw [nextGroup_eq hcancelled] at hsame
  exact congrArg Splitter.outer hsame

/-- If replacing the queue of a group changes nothing, the queue is the same. -/
theorem eq_of_setGroup {s : Splitter} {group : Nat} {q q' : Queue WorkerReply}
    (hq : s.groups[group]? = some q) (hsame : { s with groups := s.groups.set group q' } = s) :
    q' = q := by
  have hset := congrArg (fun s => s.groups[group]?) hsame
  simp only at hset
  rw [List.getElem?_set_self (List.getElem?_eq_some_iff.1 hq).1, hq] at hset
  exact Option.some.inj hset

end Splitter

/-! ## A split and its caller -/

namespace Demux

/-- What is left to do of a split and its caller. -/
def effort (d : Demux) : Nat := 11 * d.input.length + d.split.effort

/-- Nothing happens any more, whatever the caller asks for. -/
def Settled (d : Demux) : Prop :=
  ∀ e, (d.apply e).input = d.input ∧ (d.apply e).split = d.split

/-- An event changes nothing, or leaves less to do. -/
theorem apply_eq_or_effort_lt (d : Demux) (e : DemuxEvent) :
    ((d.apply e).input = d.input ∧ (d.apply e).split = d.split) ∨
      (d.apply e).effort < d.effort := by
  cases e with
  | arrive =>
    cases hinput : d.input with
    | cons item rest =>
      have hle := d.split.effort_arrive_le item
      refine .inr ?_
      simp only [apply, hinput, effort, List.length_cons]
      omega
    | nil =>
      simp only [apply, hinput, true_and]
      cases hended : d.split.ended with
      | true => exact .inl (Splitter.finish_of_ended hended)
      | false =>
        have hlt := Splitter.effort_finish_lt hended
        refine .inr ?_
        simp only [effort, hinput]
        omega
  | step =>
    simp only [apply]
    split
    next => exact .inl ⟨rfl, rfl⟩
    next split hstep =>
      have hlt := Splitter.effort_lt_of_step hstep
      exact .inr (Nat.add_lt_add_left hlt _)
  | nextGroup =>
    exact d.split.nextGroup_eq_or_effort_lt.imp (fun hsame => ⟨rfl, hsame⟩)
      (fun hlt => Nat.add_lt_add_left hlt _)
  | recv group =>
    simp only [apply]
    split
    next => exact .inl ⟨rfl, rfl⟩
    next received split hrecv =>
      exact (Splitter.recv_eq_or_effort_lt hrecv).imp (fun hsame => ⟨rfl, hsame⟩)
        (fun hlt => Nat.add_lt_add_left hlt _)

/-- Every schedule can be continued to where nothing happens any more. -/
theorem exists_settled (d : Demux) : ∃ es, (d.run es).Settled := by
  obtain ⟨es, -, hsettled⟩ := exists_foldl_resting apply effort
    (fun d' d => d'.input = d.input ∧ d'.split = d.split) (fun _ => True)
    (fun d e _ => d.apply_eq_or_effort_lt e) d
  exact ⟨es, fun e => hsettled e trivial⟩

end Demux

end Sidecar
