import Sidecar.Proofs.Verdict

/-!
# How long a submission can keep reading

A submission that goes on has used up an entry of a queue, or has come a step nearer to its end.
`StandIn.effort`, `Intake.effort` count these steps; an entry that is still in a queue counts for
two of them.
-/

namespace Sidecar

/-- Taking an item out leaves one entry less. -/
theorem Queue.length_buffer_of_recv_item {α : Type} {q q' : Queue α} {stopped : Bool} {a : α}
    (h : q.recv stopped = (.item a, q')) : q'.buffer.length + 1 = q.buffer.length := by
  unfold recv at h
  split at h
  · cases h
  · split at h
    · cases h
    · split at h
      next hbuf =>
        cases h
        simp [hbuf]
      next => cases h
      next => cases h
      next => split at h <;> cases h

/-- Putting an entry in leaves at most one entry more. -/
theorem Queue.length_buffer_send_le {α : Type} (q : Queue α) (stopped : Bool) (entry : Entry α) :
    (q.send stopped entry).2.buffer.length ≤ q.buffer.length + 1 := by
  unfold send
  split
  · exact Nat.le_succ _
  · split
    · exact Nat.le_succ _
    · split
      · simp
      · exact Nat.le_succ _

/-- An entry that does not land is not in the queue. -/
theorem Queue.buffer_of_send_ne_landed {α : Type} {q q' : Queue α} {stopped : Bool}
    {entry : Entry α} {sent : Sent} (h : q.send stopped entry = (sent, q'))
    (hsent : sent ≠ .landed) : q'.buffer = q.buffer := by
  unfold send at h
  split at h
  · cases h
    rfl
  · split at h
    · cases h
      rfl
    · split at h
      · cases h
        exact absurd rfl hsent
      · cases h
        rfl

/-! ## Stand-ins -/

/-- What is left to do of a stand-in beyond what its queue holds. -/
def StandIn.effort {ω : Type} (s : StandIn ω) : Nat := 1 + min s.reads 1 + s.dropsQueue.toNat

/-- A stand-in that goes on has less to do. -/
theorem StandIn.effort_lt {ω α : Type} {s s' : StandIn ω} {stopped : Bool} {q q' : Queue α}
    (h : s.step stopped q = (.going s', q')) :
    q'.buffer.length ≤ q.buffer.length ∧
      q'.buffer.length + s'.effort < q.buffer.length + s.effort := by
  unfold step at h
  split at h
  next n hreads =>
    have hle := q.length_buffer_recv_le stopped
    cases hrecv : q.recv stopped with
    | mk got rest =>
      rw [hrecv] at h hle
      simp only at hle
      cases got with
      | pending => cases h
      | item a =>
        cases h
        have := Queue.length_buffer_of_recv_item hrecv
        simp only [effort, hreads]
        omega
      | ended | error e =>
        cases h
        simp only [effort, hreads]
        omega
  next hreads =>
    split at h
    next hdrops =>
      cases h
      simp [effort, hreads, hdrops, Queue.dropReader]
    next => split at h <;> cases h

/-! ## Batches -/

/-- The number of entries in a list of queues. -/
def bufferedIn (payloads : List (Queue Bytes)) : Nat :=
  payloads.foldr (fun q n => q.buffer.length + n) 0

@[simp] theorem bufferedIn_cons (q : Queue Bytes) (payloads : List (Queue Bytes)) :
    bufferedIn (q :: payloads) = q.buffer.length + bufferedIn payloads := rfl

theorem bufferedIn_append (payloads : List (Queue Bytes)) (q : Queue Bytes) :
    bufferedIn (payloads ++ [q]) = bufferedIn payloads + q.buffer.length := by
  induction payloads with
  | nil => simp [bufferedIn]
  | cons p payloads ih =>
    rw [List.cons_append, bufferedIn_cons, bufferedIn_cons, ih]
    omega

/-- Replacing a queue changes the number by what it changes for the queue. -/
theorem bufferedIn_set {payloads : List (Queue Bytes)} {n : Nat} {q : Queue Bytes}
    (h : payloads[n]? = some q) (q' : Queue Bytes) :
    bufferedIn (payloads.set n q') + q.buffer.length =
      bufferedIn payloads + q'.buffer.length := by
  induction payloads generalizing n with
  | nil => cases h
  | cons p payloads ih =>
    cases n with
    | zero =>
      rw [List.getElem?_cons_zero, Option.some.injEq] at h
      subst h
      rw [List.set_cons_zero, bufferedIn_cons, bufferedIn_cons]
      omega
    | succ n =>
      rw [List.getElem?_cons_succ] at h
      have := ih h
      rw [List.set_cons_succ, bufferedIn_cons, bufferedIn_cons]
      omega

theorem bufferedIn_dropReader (payloads : List (Queue Bytes)) :
    bufferedIn (payloads.map Queue.dropReader) = 0 := by
  induction payloads with
  | nil => rfl
  | cons p payloads ih => simp [ih, Queue.dropReader]

theorem bufferedIn_modify_dropReader_le (payloads : List (Queue Bytes)) (n : Nat) :
    bufferedIn (payloads.modify n .dropReader) ≤ bufferedIn payloads := by
  induction payloads generalizing n with
  | nil => simp
  | cons p payloads ih =>
    cases n with
    | zero => simp [Queue.dropReader]
    | succ n =>
      have := ih n
      rw [List.modify_succ_cons, bufferedIn_cons, bufferedIn_cons]
      omega

theorem TaskQueues.entries_eq (qs : TaskQueues) :
    qs.entries = qs.headers.buffer.length + bufferedIn qs.payloads := rfl

@[simp] theorem TaskQueues.entries_dropReaders (qs : TaskQueues) : qs.dropReaders.entries = 0 := by
  rw [entries_eq]
  simp [dropReaders, Queue.dropReader, bufferedIn_dropReader]

/-- What is left to do of a batch beyond what its queues hold: a payload that is being read is to
be staged. -/
def Intake.effort (i : Intake) : Nat := 1 + i.current.toList.length

/-- A batch that goes on has less to do. -/
theorem Intake.effort_lt {i i' : Intake} {store : Store} {stopped : Bool} {qs qs' : TaskQueues}
    (h : i.step store stopped qs = (.going i', qs')) :
    2 * qs'.entries + i'.effort < 2 * qs.entries + i.effort := by
  unfold step at h
  cases hc : i.current with
  | none =>
    simp only [hc, takeHeader] at h
    cases hrecv : qs.headers.recv stopped with
    | mk got headers =>
      simp only [hrecv] at h
      cases got with
      | item entry =>
        simp only at h
        split at h
        · cases h
        · cases h
          have := Queue.length_buffer_of_recv_item hrecv
          simp only [TaskQueues.entries_eq, effort, hc, Option.toList_some, Option.toList_none,
            List.length_singleton, List.length_nil]
          omega
      | pending | ended | error e => cases h
  | some u =>
    simp only [hc, takeChunk] at h
    cases hq : qs.payloads[u.payload]? with
    | none =>
      rw [hq] at h
      cases h
    | some q =>
      simp only [hq, drain] at h
      have hle := q.length_buffer_recv_le stopped
      cases hrecv : q.recv stopped with
      | mk got rest =>
        rw [hrecv] at hle
        simp only [hrecv] at h
        have hset := bufferedIn_set hq rest
        cases got with
        | item chunk =>
          have := Queue.length_buffer_of_recv_item hrecv
          cases hlong : store.isTooLong (u.received ++ chunk).length with
          | true =>
            simp only [hlong, if_true] at h
            cases h
          | false =>
            simp only [hlong, Bool.false_eq_true, if_false] at h
            cases h
            simp only [TaskQueues.entries_eq, effort, hc, Option.toList_some, List.length_singleton]
            omega
        | ended =>
          cases h
          simp only at hle
          simp only [TaskQueues.entries_eq, effort, hc, Option.toList_some, Option.toList_none,
            List.length_singleton, List.length_nil]
          omega
        | pending | error e => cases h

/-! ## Submissions of either kind -/

/-- What is left to do of work in the background. -/
def Work.effort {ω α : Type} (size : ω → Nat) : Work ω α → Nat
  | running work => size work
  | absent | finished _ | broken => 0

/-- What is left to do of a submission beyond what its queues hold. -/
def CreateWork.effort : CreateWork → Nat
  | intake i => i.effort
  | standIn s => s.effort

/-- A submission that goes on has less to do. -/
theorem CreateWork.effort_lt {work work' : CreateWork} {store : Store} {stopped : Bool}
    {qs qs' : TaskQueues} (h : work.step store stopped qs = (.going work', qs')) :
    2 * qs'.entries + work'.effort < 2 * qs.entries + work.effort := by
  cases work with
  | intake i =>
    cases hstep : i.step store stopped qs with
    | mk progress rest =>
      simp only [step, hstep] at h
      cases progress with
      | going i' =>
        cases h
        exact Intake.effort_lt hstep
      | waiting | ended outcome | broken => cases h
  | standIn s =>
    cases hstep : s.step stopped qs.headers with
    | mk progress rest =>
      simp only [step, hstep] at h
      cases progress with
      | going s' =>
        cases h
        obtain ⟨hle, hlt⟩ := StandIn.effort_lt hstep
        simp only [TaskQueues.entries_eq, effort]
        omega
      | waiting | ended outcome | broken => cases h

/-- A result that goes on has an entry less to read. -/
theorem ResultIntake.length_buffer_lt {i i' : ResultIntake} {store : Store} {stopped : Bool}
    {q q' : Queue Bytes} (h : i.step store stopped q = (.going i', q')) :
    q'.buffer.length + 1 = q.buffer.length := by
  simp only [step, drain] at h
  cases hrecv : q.recv stopped with
  | mk got rest =>
    simp only [hrecv] at h
    cases got with
    | item chunk =>
      have := Queue.length_buffer_of_recv_item hrecv
      cases hlong : store.isTooLong (i.received ++ chunk).length with
      | true =>
        simp only [hlong, if_true] at h
        cases h
      | false =>
        simp only [hlong, Bool.false_eq_true, if_false] at h
        cases h
        exact this
    | pending | ended | error e => cases h

/-- What is left to do of a submission beyond what its queue holds. -/
def ResultWork.effort : ResultWork → Nat
  | intake _ => 1
  | standIn s => s.effort

/-- A submission that goes on has less to do. -/
theorem ResultWork.effort_lt {work work' : ResultWork} {store : Store} {stopped : Bool}
    {q q' : Queue Bytes} (h : work.step store stopped q = (.going work', q')) :
    q'.buffer.length + work'.effort < q.buffer.length + work.effort := by
  cases work with
  | intake i =>
    cases hstep : i.step store stopped q with
    | mk progress rest =>
      simp only [step, hstep] at h
      cases progress with
      | going i' =>
        cases h
        have := ResultIntake.length_buffer_lt hstep
        simp only [effort]
        omega
      | waiting | ended outcome | broken => cases h
  | standIn s =>
    cases hstep : s.step stopped q with
    | mk progress rest =>
      simp only [step, hstep] at h
      cases progress with
      | going s' =>
        cases h
        exact (StandIn.effort_lt hstep).2
      | waiting | ended outcome | broken => cases h

end Sidecar
