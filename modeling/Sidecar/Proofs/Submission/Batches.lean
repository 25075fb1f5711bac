import Sidecar.Proofs.Submission.Parcels

/-!
# Creating the tasks of a batch

A submission reads the queues of a batch one entry after the other and stages what it has read
(`Intake.Reading`). Each of its steps uses up an entry, or comes to the verdict on the whole batch
(`Intake.Reading.step`). So creating the tasks of a batch comes to the verdict: the batch is stored
as a whole, or nothing is (`Store.createTasks_whole_or_not_at_all`).
-/

namespace Sidecar

/-- What a submission has read of a batch. Between two parcels it has staged those that it has read;
within a parcel it has received a part of the payload, and the queue brings the rest. -/
inductive Intake.Reading (store : Store) (identity : Identity) (options : Option TaskOptions)
    (parcels : List Parcel) (ending : Queue.Ending) : Intake → TaskQueues → Prop where
  | between {done : List Parcel} {left : List (Parcel × Nat)} {qs : TaskQueues}
      (hparcels : parcels = done ++ left.map (·.1)) (hdone : store.Stages done)
      (hqs : qs.Brings left ending) :
      Reading store identity options parcels ending
        ⟨identity, options, done.map (·.task identity options), none⟩ qs
  | within {done : List Parcel} {p : Parcel} {n : Nat} {received : Bytes} {todo : List Bytes}
      {left : List (Parcel × Nat)} {q : Queue Bytes} {qs : TaskQueues}
      (hparcels : parcels = done ++ p :: left.map (·.1)) (hdone : store.Stages done)
      (hfree : store.Offers done p.header.id) (hpayload : received ++ todo.flatten = p.payload)
      (hshort : store.limit = 0 ∨ received.length ≤ store.limit) (hn : n ∉ left.map (·.2))
      (hget : qs.payloads[n]? = some q) (hq : q.Brings todo p.ending)
      (hqs : qs.Brings left ending) :
      Reading store identity options parcels ending
        ⟨identity, options, done.map (·.task identity options), some ⟨p.header, n, received⟩⟩ qs

namespace Intake

variable {store : Store} {identity : Identity} {options : Option TaskOptions}
  {parcels : List Parcel} {ending : Queue.Ending} {i : Intake} {qs : TaskQueues}

/-- An id is taken where it is stored or staged. -/
theorem isTaken_eq_false_iff {done : List Parcel} {id : String} :
    (⟨identity, options, done.map (·.task identity options), none⟩ : Intake).isTaken store id =
      false ↔ store.Offers done id := by
  simp [isTaken, Store.Offers, Dict.contains, Parcel.task]

/-- What the next step of a submission comes to: it goes on and has an entry less to read, or it
ends with the verdict on the batch. -/
inductive Advances (store : Store) (identity : Identity) (options : Option TaskOptions)
    (parcels : List Parcel) (ending : Queue.Ending) (qs : TaskQueues) :
    Progress Intake Submitted × TaskQueues → Prop where
  | going {i' : Intake} {qs' : TaskQueues}
      (h : Reading store identity options parcels ending i' qs')
      (hentries : qs'.entries < qs.entries) : Advances store identity options parcels ending qs
        (.going i', qs')
  | ended {outcome : Except Cause Submitted} {qs' : TaskQueues}
      (h : store.Judges identity options parcels ending outcome) :
      Advances store identity options parcels ending qs (.ended outcome, qs')

namespace Reading

/-- The next header is read, or the ending of the batch. -/
theorem takeHeader {done : List Parcel} {left : List (Parcel × Nat)}
    (hparcels : parcels = done ++ left.map (·.1)) (hdone : store.Stages done)
    (hqs : qs.Brings left ending) :
    Advances store identity options parcels ending qs
      (Intake.takeHeader ⟨identity, options, done.map (·.task identity options), none⟩ store false
        qs) := by
  cases left with
  | nil =>
    obtain ⟨q', hrecv, -⟩ := hqs.headers.exists_recv_ending
    rw [List.map_nil, List.append_nil] at hparcels
    subst hparcels
    cases herror : ending.error? with
    | none =>
      have hjudges : store.Judges identity options parcels ending (.ok _) :=
        .whole (Queue.Ending.error?_eq_none_iff.1 herror) hdone
      simp only [Intake.takeHeader, hrecv, Queue.Ending.received, herror]
      simpa [submitted, Parcel.task, Function.comp_def] using Advances.ended hjudges
    | some e =>
      simp only [Intake.takeHeader, hrecv, Queue.Ending.received, herror]
      exact .ended (.refused (.unended hdone herror))
  | cons e left =>
    obtain ⟨p, n⟩ := e
    obtain ⟨headers, hrecv, hheaders, hlength⟩ := hqs.headers.exists_recv_item
    have hdistinct := List.nodup_cons.1 hqs.distinct
    obtain ⟨q, hget, hq⟩ := hqs.payloads _ List.mem_cons_self
    simp only [Intake.takeHeader, hrecv]
    split
    next htaken =>
      refine .ended (.refused (.taken hparcels hdone fun hfree => ?_))
      rw [isTaken_eq_false_iff.2 hfree] at htaken
      cases htaken
    next hfree =>
      refine .going (.within hparcels hdone (isTaken_eq_false_iff.1 (by simpa using hfree)) rfl
        (.inr (Nat.zero_le _)) hdistinct.1 hget hq ?_) ?_
      · exact ⟨hheaders, hdistinct.2, fun e he => hqs.payloads e (List.mem_cons_of_mem _ he)⟩
      · rw [TaskQueues.entries_eq, TaskQueues.entries_eq]
        simp only
        omega

/-- The next part of a payload is read, or its ending. -/
theorem takeChunk {done : List Parcel} {p : Parcel} {n : Nat} {received : Bytes} {todo : List Bytes}
    {left : List (Parcel × Nat)} {q : Queue Bytes}
    (hparcels : parcels = done ++ p :: left.map (·.1)) (hdone : store.Stages done)
    (hfree : store.Offers done p.header.id) (hpayload : received ++ todo.flatten = p.payload)
    (hshort : store.limit = 0 ∨ received.length ≤ store.limit) (hn : n ∉ left.map (·.2))
    (hget : qs.payloads[n]? = some q) (hq : q.Brings todo p.ending) (hqs : qs.Brings left ending) :
    Advances store identity options parcels ending qs
      (Intake.takeChunk ⟨identity, options, done.map (·.task identity options),
        some ⟨p.header, n, received⟩⟩ store false qs ⟨p.header, n, received⟩) := by
  -- Whatever is read of the payload, there is an entry less in its queue.
  have hentries : ∀ q' : Queue Bytes, q'.buffer.length + 1 = q.buffer.length →
      ({ qs with payloads := qs.payloads.set n q' } : TaskQueues).entries < qs.entries := by
    intro q' hlength
    have := bufferedIn_set hget q'
    rw [TaskQueues.entries_eq, TaskQueues.entries_eq]
    simp only
    omega
  cases todo with
  | nil =>
    obtain ⟨q', hrecv, hlength⟩ := hq.exists_recv_ending
    rw [List.flatten_nil, List.append_nil] at hpayload
    subst hpayload
    cases herror : p.ending.error? with
    | none =>
      have hclosed := Queue.Ending.error?_eq_none_iff.1 herror
      simp only [Intake.takeChunk, hget, drain, hrecv, Queue.Ending.received, herror]
      have hstaged : Reading store identity options parcels ending
          ⟨identity, options, (done ++ [p]).map (·.task identity options), none⟩
          { qs with payloads := qs.payloads.set n q' } :=
        .between (by simpa using hparcels) (hdone.concat hfree hclosed hshort) (hqs.set hn q')
      rw [List.map_append] at hstaged
      exact .going hstaged (hentries q' (hlength hclosed))
    | some e =>
      simp only [Intake.takeChunk, hget, drain, hrecv, Queue.Ending.received, herror]
      exact .ended (.refused (.broken hparcels hdone hfree hshort herror))
  | cons chunk todo =>
    obtain ⟨q', hrecv, hq', hlength⟩ := hq.exists_recv_item
    rw [List.flatten_cons, ← List.append_assoc] at hpayload
    cases hlong : store.isTooLong (received ++ chunk).length with
    | true =>
      simp only [Intake.takeChunk, hget, drain, hrecv, hlong, if_true]
      have hlong : ¬ (store.limit = 0 ∨ (received ++ chunk).length ≤ store.limit) := by
        rw [← Store.isTooLong_eq_false_iff, hlong]
        exact Bool.noConfusion
      -- What is too long already does not become shorter by what follows.
      refine .ended (.refused (.tooLong hparcels hdone hfree fun hshort => hlong ?_))
      rw [← hpayload] at hshort
      exact hshort.imp_right fun hle => Nat.le_trans (by simp) hle
    | false =>
      simp only [Intake.takeChunk, hget, drain, hrecv, hlong, Bool.false_eq_true, if_false]
      have hset : (qs.payloads.set n q')[n]? = some q' :=
        List.getElem?_set_self (List.getElem?_eq_some_iff.1 hget).1
      exact .going (.within hparcels hdone hfree hpayload
        ((store.isTooLong_eq_false_iff _).1 hlong) hn hset hq' (hqs.set hn q'))
        (hentries q' hlength)

/-- Every step reads an entry or ends with the verdict on the batch. -/
theorem step (h : Reading store identity options parcels ending i qs) :
    Advances store identity options parcels ending qs (i.step store false qs) := by
  cases h with
  | between hparcels hdone hqs => exact takeHeader hparcels hdone hqs
  | within hparcels hdone hfree hpayload hshort hn hget hq hqs =>
    exact takeChunk hparcels hdone hfree hpayload hshort hn hget hq hqs

/-- With enough steps, a submission comes to the verdict on its batch. -/
theorem exists_takeIn (h : Reading store identity options parcels ending i qs) {n : Nat}
    (hn : qs.entries < n) : ∃ outcome, store.takeIn n i qs = .ended outcome ∧
      store.Judges identity options parcels ending outcome := by
  induction n generalizing i qs with
  | zero => cases hn
  | succ n ih =>
    have hnext := h.step
    rw [Store.takeIn]
    generalize i.step store false qs = result at hnext
    cases hnext with
    | going hreading hentries => exact ih hreading (by omega)
    | ended hjudges => exact ⟨_, rfl, hjudges⟩

end Reading

end Intake

namespace Store

/-- The tasks of a batch are created if it can be stored, and it is refused for a fault if not. -/
theorem createTasks_cases (store : Store) (identity : Identity) (options : Option TaskOptions)
    {qs : TaskQueues} {sent : List (Parcel × Nat)} {ending : Queue.Ending}
    (h : qs.Brings sent ending) :
    (ending = .closed ∧ store.Stages (sent.map (·.1)) ∧ store.createTasks identity options qs =
        (some (.ok ((sent.map (·.1)).map (·.header.created))),
          store.addTasks ((sent.map (·.1)).map (·.task identity options)))) ∨
      ∃ cause, store.Faults (sent.map (·.1)) ending cause ∧
        store.createTasks identity options qs = (some (.error cause), store) := by
  have hstart : Intake.Reading store identity options (sent.map (·.1)) ending
      (.start identity options) qs :=
    .between (List.nil_append _).symm ⟨List.nodup_nil, nofun, nofun, nofun⟩ h
  obtain ⟨verdict, htakeIn, hjudges⟩ := hstart.exists_takeIn (Nat.lt_succ_self _)
  rw [createTasks, htakeIn]
  cases hjudges with
  | whole hending hstages => exact .inl ⟨hending, hstages, rfl⟩
  | refused hfaults => exact .inr ⟨_, hfaults, rfl⟩

/-- **A batch is created as a whole or not at all.** Whatever queues bring the parcels of a batch
and its ending, the tasks are created if and only if the batch ended cleanly, every id is new, and
every payload is whole and not too long. Then the descriptors are those of the headers, in their
order, and the store has one task more for each of them, not released, with the whole of its
payload. If they are not created, the cause is the first fault of the batch, and the store is as it
was. -/
theorem createTasks_whole_or_not_at_all (store : Store) (identity : Identity)
    (options : Option TaskOptions) (qs : TaskQueues) (sent : List (Parcel × Nat))
    (ending : Queue.Ending) (h : qs.Brings sent ending) :
    let parcels := sent.map (·.1)
    let outcome := (store.createTasks identity options qs).1
    let after := (store.createTasks identity options qs).2
    ((∃ created, outcome = some (.ok created)) ↔ ending = .closed ∧ store.Stages parcels) ∧
    (∀ created, outcome = some (.ok created) →
      created = parcels.map (·.header.created) ∧
      (∀ p ∈ parcels, after.tasks.get? p.header.id = some
        ⟨identity.sessionId, identity.taskId, options, p.header, p.parts.flatten, false⟩) ∧
      (∀ id, id ∉ parcels.map (·.header.id) → after.tasks.get? id = store.tasks.get? id) ∧
      after.results = store.results ∧ after.limit = store.limit) ∧
    (¬ (ending = .closed ∧ store.Stages parcels) →
      ∃ cause, outcome = some (.error cause) ∧ store.Faults parcels ending cause ∧
        after = store) := by
  intro parcels outcome after
  obtain ⟨hending, hstages, hcreate⟩ | ⟨cause, hfaults, hcreate⟩ :=
    store.createTasks_cases identity options h
  · have houtcome : outcome = some (.ok (parcels.map (·.header.created))) :=
      congrArg Prod.fst hcreate
    have hafter : after = store.addTasks (parcels.map (·.task identity options)) :=
      congrArg Prod.snd hcreate
    have hids : (parcels.map (·.task identity options)).map (·.header.id) =
        parcels.map (·.header.id) := by
      simp [Parcel.task]
    refine ⟨iff_of_true ⟨_, houtcome⟩ ⟨hending, hstages⟩, fun created hok => ?_,
      fun hnot => absurd ⟨hending, hstages⟩ hnot⟩
    rw [hafter]
    refine ⟨?_, fun p hp => ?_, fun id hid => ?_, rfl, rfl⟩
    · exact (Except.ok.inj (Option.some.inj (houtcome.symm.trans hok))).symm
    · exact store.get?_addTasks_of_mem (hids ▸ hstages.distinct) (List.mem_map_of_mem hp)
    · exact store.get?_addTasks_of_not_mem (hids ▸ hid)
  · have houtcome : outcome = some (.error cause) := congrArg Prod.fst hcreate
    have hafter : after = store := congrArg Prod.snd hcreate
    refine ⟨iff_of_false ?_ hfaults.not_stages, fun created hok => ?_,
      fun _ => ⟨cause, houtcome, hfaults, hafter⟩⟩
    · rintro ⟨created, hok⟩
      cases houtcome.symm.trans hok
    · cases houtcome.symm.trans hok

/-- A batch whose payloads came in parts is created if its queue was closed, and leaves nothing if
it was abandoned. -/
theorem createTasks_closed_or_abandoned :
    let store := Store.empty 3
    let parcels : List Parcel :=
      [⟨⟨"a", [], []⟩, [[1], [], [2, 3]], .closed⟩, ⟨⟨"b", [], []⟩, [], .closed⟩]
    let created := store.createTasks ⟨"session", "task"⟩ none (.filled parcels .closed)
    let abandoned := store.createTasks ⟨"session", "task"⟩ none (.filled parcels .dropped)
    (TaskQueues.filled parcels .closed).Brings parcels.zipIdx .closed ∧
      (TaskQueues.filled parcels .dropped).Brings parcels.zipIdx .dropped ∧
      created.2.tasks.get? "a" = some ⟨"session", "task", none, ⟨"a", [], []⟩, [1, 2, 3], false⟩ ∧
      abandoned.2 = store := by
  intro store parcels created abandoned
  have hclosed := TaskQueues.brings_filled parcels .closed
  have hdropped := TaskQueues.brings_filled parcels .dropped
  obtain ⟨hiff, hcreated, -⟩ := createTasks_whole_or_not_at_all store ⟨"session", "task"⟩ none _ _ _
    hclosed
  obtain ⟨-, -, hrefused⟩ := createTasks_whole_or_not_at_all store ⟨"session", "task"⟩ none _ _ _
    hdropped
  have hstages : store.Stages parcels := ⟨by decide, by decide, by decide, by decide⟩
  obtain ⟨tasks, hok⟩ := hiff.2 ⟨rfl, hstages⟩
  obtain ⟨cause, -, -, hafter⟩ := hrefused fun h => by cases h.1
  exact ⟨hclosed, hdropped, (hcreated tasks hok).2.1 _ List.mem_cons_self, hafter⟩

end Store

end Sidecar
