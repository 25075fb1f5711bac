import Sidecar.Proofs.Creation.Batch
import Sidecar.Proofs.Submission.Payload

/-!
# A submission and its batch

While a creation call reads its stream, its submission reads the queues the call fills.
`Intake.Follows` is what ties the two together: what the submission has staged is the front of the
batch, the header it is busy with is the next one, and the rest of the batch is still in the
queues, every byte of it once. `Intake.Follows.step` says what the submission's next step can be.
It ends cleanly only where the queue of headers was closed, and then with the whole batch; it
fails only on a batch the store does not admit.

A submission goes on in one of three ways (`Intake.GoesOn`). `Intake.Sound` collects what it has
checked by itself: the ids it has seen are new and differ from each other, and nothing it has
received is too long.
-/

namespace Sidecar

/-- The headers, in the order in which they were announced. -/
def Batch.headers (b : Batch) : List TaskHeader := b.tasks.map (·.header)

/-- The entries the tasks from a number on make in the queue of headers. A task's payload has the
queue of the task's number. -/
def Batch.entriesFrom (b : Batch) (k : Nat) : List (Entry (TaskHeader × Nat)) :=
  (b.headers.zipIdx.drop k).map .item

namespace Intake

/-- The number of headers that were taken out of their queue. -/
def headersRead (i : Intake) : Nat := i.staged.length + i.current.toList.length

/-- What was received of the payload with a number, if it is the one being read. -/
def receivedOf (i : Intake) (n : Nat) : Bytes :=
  match i.current with
  | some u => if u.payload = n then u.received else []
  | none => []

/-- The submission has read the front of the batch, and the queues hold the rest of it. `ended`
tells whether the end of the headers was announced, too. -/
structure Follows (i : Intake) (identity : Identity) (b : Batch) (ended : Bool)
    (qs : TaskQueues) : Prop where
  owner : i.identity = identity
  options : i.options = b.options
  staged : i.staged = (b.complete.take i.staged.length).map (b.task identity)
  current : ∀ u, i.current = some u →
    u.payload = i.staged.length ∧ b.headers[i.staged.length]? = some u.header
  reader : qs.headers.readerGone = false
  finished : qs.headers.finished = false
  headers : qs.headers.buffer ++ qs.headers.waiting.toList =
    b.entriesFrom i.headersRead ++ if ended then [.close] else []
  count : qs.payloads.length = b.tasks.length
  payloads : ∀ n t, b.tasks[n]? = some t → i.staged.length ≤ n →
    ∃ q rest, qs.payloads[n]? = some q ∧ q.Carries rest (decide (n < b.complete.length)) ∧
      t.payload = i.receivedOf n ++ rest

/-- The checks the submission has made on what it has read so far. -/
structure Sound (i : Intake) (store : Store) : Prop where
  distinct : (i.staged.map (·.header.id) ++ i.current.toList.map (·.header.id)).Nodup
  fresh : ∀ id ∈ i.staged.map (·.header.id) ++ i.current.toList.map (·.header.id),
    store.tasks.get? id = none
  stagedFits : ∀ t ∈ i.staged, store.isTooLong t.payload.length = false
  currentFits : ∀ u, i.current = some u → store.isTooLong u.received.length = false

end Intake

namespace Batch

theorem length_headers (b : Batch) : b.headers.length = b.tasks.length := by simp [headers]

theorem length_complete_le (b : Batch) : b.complete.length ≤ b.tasks.length := by simp [tasks]

theorem getElem?_tasks_of_lt {b : Batch} {n : Nat} (h : n < b.complete.length) :
    b.tasks[n]? = b.complete[n]? := by
  rw [tasks, List.getElem?_append_left h]

/-- The next entry of the headers is the next task's. -/
theorem entriesFrom_eq_cons {b : Batch} {k : Nat} {t : Announced} (h : b.tasks[k]? = some t) :
    b.entriesFrom k = .item (t.header, k) :: b.entriesFrom (k + 1) := by
  obtain ⟨hk, rfl⟩ := List.getElem?_eq_some_iff.1 h
  have hk' : k < b.headers.zipIdx.length := by simpa [length_headers] using hk
  rw [entriesFrom, List.drop_eq_getElem_cons hk']
  simp [headers, entriesFrom]

/-- After the last task there is no entry. -/
theorem entriesFrom_of_le {b : Batch} {k : Nat} (h : b.tasks.length ≤ k) :
    b.entriesFrom k = [] := by
  simp [entriesFrom, List.drop_eq_nil_of_le, length_headers, h]

/-- A further task makes a further entry. -/
theorem entriesFrom_append {b b' : Batch} {header : TaskHeader} {k : Nat}
    (h : b'.headers = b.headers ++ [header]) (hk : k ≤ b.tasks.length) :
    b'.entriesFrom k = b.entriesFrom k ++ [.item (header, b.tasks.length)] := by
  rw [← length_headers] at hk ⊢
  rw [entriesFrom, entriesFrom, h, List.zipIdx_append, List.drop_append_of_le_length (by simpa)]
  simp

end Batch

namespace Intake

variable {i : Intake} {identity : Identity} {b : Batch} {ended : Bool} {qs : TaskQueues}

/-- Reading leaves the writer's side of the headers alone. -/
theorem step_frame (i : Intake) (store : Store) (stopped : Bool) (qs : TaskQueues) :
    (i.step store stopped qs).2.headers.capacity = qs.headers.capacity ∧
      (i.step store stopped qs).2.headers.waiting = qs.headers.waiting ∧
      (i.step store stopped qs).2.headers.writerGone = qs.headers.writerGone := by
  have hframe := qs.headers.recv_frame stopped
  have hheaders := And.intro hframe.1 (And.intro hframe.2.1 hframe.2.2.1)
  unfold step
  split
  · unfold takeHeader
    simp only
    split <;> try exact hheaders
    split <;> exact hheaders
  · unfold takeChunk
    split
    · exact ⟨rfl, rfl, rfl⟩
    · simp only
      split <;> exact ⟨rfl, rfl, rfl⟩

/-- The submission cannot go on: no header is there, or nothing of a payload that is still
coming. -/
def Starved (i : Intake) (b : Batch) (qs : TaskQueues) : Prop :=
  (i.current = none ∧ qs.headers.buffer = []) ∨
    (i.current.isSome = true ∧ b.complete.length ≤ i.staged.length)

/-- What the submission's next step can be: it starves, reads on, fails on a batch the store does
not admit, or ends with the whole batch after the end of the headers. -/
inductive Next (store : Store) (identity : Identity) (b : Batch) (ended : Bool) (i : Intake)
    (qs : TaskQueues) : Progress Intake Submitted × TaskQueues → Prop where
  | starves (h : i.Starved b qs) : Next store identity b ended i qs (.waiting, qs)
  | reads {i' : Intake} {qs' : TaskQueues} (h : i'.Follows identity b ended qs') :
      Next store identity b ended i qs (.going i', qs')
  | fails {cause : Cause} {qs' : TaskQueues} (h : ¬ store.Admits b) :
      Next store identity b ended i qs (.ended (.error cause), qs')
  | submits {qs' : TaskQueues} (hended : ended = true) (hwait : qs.headers.waiting = none)
      (hstaged : i.staged = b.stored identity) :
      Next store identity b ended i qs (.ended (.ok ⟨b.stored identity, b.created⟩), qs')

namespace Follows

theorem length_staged_le (h : i.Follows identity b ended qs) :
    i.staged.length ≤ b.complete.length := by
  have := congrArg List.length h.staged
  simp only [List.length_map, List.length_take] at this
  omega

/-- What is staged is the front of the batch. -/
theorem staged_eq (h : i.Follows identity b ended qs) :
    i.staged = (b.tasks.take i.staged.length).map (b.task identity) := by
  rw [Batch.tasks, List.take_append_of_le_length h.length_staged_le]
  exact h.staged

/-- The task the submission is busy with is the first one that is not staged. -/
theorem getElem?_current (h : i.Follows identity b ended qs) {u : Unfinished}
    (hu : i.current = some u) :
    ∃ t, b.tasks[i.staged.length]? = some t ∧ t.header = u.header := by
  have := (h.current u hu).2
  rw [Batch.headers, List.getElem?_map, Option.map_eq_some_iff] at this
  exact this

theorem headersRead_le (h : i.Follows identity b ended qs) : i.headersRead ≤ b.tasks.length := by
  have hle := h.length_staged_le
  have hcl := b.length_complete_le
  cases hc : i.current with
  | none => simp only [headersRead, hc, Option.toList_none, List.length_nil]; omega
  | some u =>
    obtain ⟨t, ht, -⟩ := h.getElem?_current hc
    have := (List.getElem?_eq_some_iff.1 ht).1
    simp only [headersRead, hc, Option.toList_some, List.length_singleton]
    omega

/-- If the next header's id is taken, the store does not admit the batch. -/
theorem not_admits_of_isTaken (h : i.Follows identity b ended qs) {store : Store} {t : Announced}
    (ht : b.tasks[i.staged.length]? = some t) (htaken : i.isTaken store t.header.id = true) :
    ¬ store.Admits b := by
  intro hadm
  obtain ⟨hlt, rfl⟩ := List.getElem?_eq_some_iff.1 ht
  have hsplit : b.tasks = b.tasks.take i.staged.length ++
      b.tasks[i.staged.length] :: b.tasks.drop (i.staged.length + 1) := by
    rw [← List.drop_eq_getElem_cons hlt, List.take_append_drop]
  rw [isTaken, Bool.or_eq_true] at htaken
  rcases htaken with hstore | hstaged
  · have := hadm.fresh _ (List.mem_map_of_mem (List.getElem_mem hlt))
    rw [← Dict.contains_eq_false_iff, hstore] at this
    cases this
  · obtain ⟨s, hs, hid⟩ := List.any_eq_true.1 hstaged
    rw [h.staged_eq] at hs
    obtain ⟨r, hr, rfl⟩ := List.mem_map.1 hs
    have hnd := hadm.distinct
    rw [Batch.ids, hsplit, List.map_append, List.nodup_append] at hnd
    exact hnd.2.2 r.header.id (List.mem_map_of_mem hr) _ (List.mem_map_of_mem List.mem_cons_self)
      (of_decide_eq_true hid)

/-- If more was received of a payload than the store takes, it does not admit the batch. -/
theorem not_admits_of_isTooLong {store : Store} {t : Announced} {received rest : Bytes}
    (ht : t ∈ b.tasks) (hpay : t.payload = received ++ rest)
    (hlong : store.isTooLong received.length = true) : ¬ store.Admits b := by
  intro hadm
  have hfits := hadm.fits t ht
  have hle : received.length ≤ t.payload.length := by simp [hpay]
  have : store.isTooLong received.length = false := by
    rw [Store.isTooLong_eq_false_iff]
    omega
  rw [hlong] at this
  cases this

/-- Reading the next header. -/
theorem takeHeader (h : i.Follows identity b ended qs) (hc : i.current = none)
    (hw : qs.headers.writerGone = true → ended = true ∧ qs.headers.waiting = none)
    (store : Store) : Next store identity b ended i qs (i.takeHeader store false qs) := by
  have hread : i.headersRead = i.staged.length := by simp [headersRead, hc]
  have hqueue := h.headers
  rw [hread] at hqueue
  cases hbuf : qs.headers.buffer with
  | nil =>
    cases hgone : qs.headers.writerGone with
    | false =>
      rw [Intake.takeHeader, Queue.recv_pending h.finished hbuf hgone]
      exact .starves (.inl ⟨hc, hbuf⟩)
    | true =>
      obtain ⟨hended, hwait⟩ := hw hgone
      simp [hbuf, hwait, hended] at hqueue
  | cons e buffer =>
    rw [hbuf, List.cons_append] at hqueue
    cases ht : b.tasks[i.staged.length]? with
    | some t =>
      rw [Batch.entriesFrom_eq_cons ht, List.cons_append, List.cons.injEq] at hqueue
      obtain ⟨rfl, hqueue⟩ := hqueue
      rw [Intake.takeHeader, Queue.recv_item h.finished hbuf]
      by_cases htaken : i.isTaken store t.header.id = true
      · simp only [htaken, if_true]
        exact .fails (h.not_admits_of_isTaken ht htaken)
      · simp only [htaken]
        refine .reads ⟨h.owner, h.options, h.staged, ?_, h.reader, h.finished, ?_,
          h.count, ?_⟩
        · intro u hu
          cases hu
          exact ⟨rfl, by simp [Batch.headers, ht]⟩
        · simpa [headersRead] using hqueue
        · intro n s hs hn
          obtain ⟨q, rest, hq, hcarries, hpay⟩ := h.payloads n s hs hn
          refine ⟨q, rest, hq, hcarries, ?_⟩
          rw [hpay]
          simp [receivedOf, hc]
    | none =>
      have hle : b.tasks.length ≤ i.staged.length := List.getElem?_eq_none_iff.1 ht
      rw [Batch.entriesFrom_of_le hle, List.nil_append] at hqueue
      cases ended with
      | false => simp at hqueue
      | true =>
        simp only [if_true, List.cons.injEq] at hqueue
        obtain ⟨rfl, hrest⟩ := hqueue
        have hwait : qs.headers.waiting = none := by
          simpa using (List.append_eq_nil_iff.1 hrest).2
        have hstaged : i.staged = b.stored identity := by
          rw [h.staged_eq, List.take_of_length_le hle]
          rfl
        have hsub : i.submitted = ⟨b.stored identity, b.created⟩ := by
          simp [submitted, hstaged, Batch.stored, Batch.created, Batch.task, Function.comp_def]
        rw [Intake.takeHeader, Queue.recv_close h.finished hbuf]
        simp only [hsub]
        exact .submits rfl hwait hstaged

/-- Reading the next entry of the present payload. -/
theorem takeChunk (h : i.Follows identity b ended qs) {u : Unfinished} (hu : i.current = some u)
    (store : Store) : Next store identity b ended i qs (i.takeChunk store false qs u) := by
  obtain ⟨hn, -⟩ := h.current u hu
  obtain ⟨t, ht, hheader⟩ := h.getElem?_current hu
  obtain ⟨q, rest, hq, hcarries, hpay⟩ := h.payloads _ t ht (Nat.le_refl _)
  have hlt : i.staged.length < qs.payloads.length := (List.getElem?_eq_some_iff.1 hq).1
  rw [receivedOf, hu] at hpay
  simp only [hn, if_true] at hpay
  rw [Intake.takeChunk, hn, hq]
  simp only
  rcases hcarries.drain store ("task " ++ u.header.id) u.received with
    ⟨chunk, rest', q', rfl, hcarries', hlong | hshort⟩ | ⟨rfl, hclosed, q', hdrain⟩ |
    ⟨rfl, hopen, hdrain⟩
  · obtain ⟨hlong, cause, hdrain⟩ := hlong
    rw [hdrain]
    exact .fails (not_admits_of_isTooLong (List.mem_of_getElem? ht)
      (by rw [hpay, List.append_assoc]) hlong)
  · rw [hshort.2]
    refine .reads ⟨h.owner, h.options, h.staged, ?_, h.reader, h.finished, ?_, ?_, ?_⟩
    · intro v hv
      cases hv
      exact ⟨rfl, (h.current u hu).2⟩
    · simpa [headersRead, hu] using h.headers
    · simpa using h.count
    · intro n s hs hle
      by_cases hns : n = i.staged.length
      · subst hns
        cases ht.symm.trans hs
        exact ⟨q', rest', by simp [hlt], hcarries', by simp [receivedOf, hpay]⟩
      · obtain ⟨r, rest, hr, hrc, hrp⟩ := h.payloads n s hs hle
        refine ⟨r, rest, by simp [Ne.symm hns, hr], hrc, ?_⟩
        rw [hrp]
        simp [receivedOf, hu, hn, Ne.symm hns]
  · rw [hdrain]
    have hltc : i.staged.length < b.complete.length := by simpa using hclosed
    have htc : b.complete[i.staged.length]? = some t := by
      rw [← Batch.getElem?_tasks_of_lt hltc, ht]
    have htask : i.task u.header u.received = b.task identity t := by
      simp [Intake.task, Batch.task, h.owner, h.options, hheader, hpay]
    refine .reads ⟨h.owner, h.options, ?_, (fun v hv => by cases hv), h.reader, h.finished, ?_, ?_,
      ?_⟩
    · simp only [List.length_append, List.length_singleton]
      rw [List.take_add_one, htc, Option.toList_some, List.map_append, ← h.staged, htask]
      rfl
    · simpa [headersRead, hu] using h.headers
    · simpa using h.count
    · intro n s hs hle
      simp only [List.length_append, List.length_singleton] at hle
      obtain ⟨r, rest, hr, hrc, hrp⟩ := h.payloads n s hs (by omega)
      have hns : i.staged.length ≠ n := by omega
      refine ⟨r, rest, by simp [hns, hr], hrc, ?_⟩
      rw [hrp]
      simp [receivedOf, hu, hn, hns]
  · rw [hdrain]
    have hsame : qs.payloads.set i.staged.length q = qs.payloads := by
      obtain ⟨_, rfl⟩ := List.getElem?_eq_some_iff.1 hq
      exact List.set_getElem_self _
    simp only [hsame]
    exact .starves (.inr ⟨by simp [hu], by simpa using hopen⟩)

/-- Reading the next entry. -/
theorem step (h : i.Follows identity b ended qs)
    (hw : qs.headers.writerGone = true → ended = true ∧ qs.headers.waiting = none)
    (store : Store) : Next store identity b ended i qs (i.step store false qs) := by
  unfold Intake.step
  split
  next hc => exact h.takeHeader hc hw store
  next u hu => exact h.takeChunk hu store

end Follows

/-! ## What a submission checks -/

section Checking

variable {store : Store}

/-- A step after which a submission goes on: it has read the header of a task whose id is free, a
part of a payload that is not too long, or the end of a payload. -/
inductive GoesOn (i : Intake) (store : Store) : Intake → Prop where
  | header {header : TaskHeader} (payload : Nat) (hc : i.current = none)
      (hfree : i.isTaken store header.id = false) :
      GoesOn i store { i with current := some ⟨header, payload, []⟩ }
  | chunk {u : Unfinished} {received : Bytes} (hu : i.current = some u)
      (hshort : store.isTooLong received.length = false) :
      GoesOn i store { i with current := some { u with received } }
  | complete {u : Unfinished} (hu : i.current = some u) :
      GoesOn i store
        { i with staged := i.staged ++ [i.task u.header u.received], current := none }

/-- A submission goes on in one of three ways. -/
theorem goesOn_of_step {stopped : Bool} {i' : Intake} {qs' : TaskQueues}
    (hs : i.step store stopped qs = (.going i', qs')) : i.GoesOn store i' := by
  unfold Intake.step at hs
  split at hs
  next hc =>
    unfold Intake.takeHeader at hs
    simp only at hs
    split at hs
    next => cases hs
    next header n _ =>
      split at hs
      next => cases hs
      next hfree =>
        cases hs
        exact .header n hc (by simpa using hfree)
    next => cases hs
    next => cases hs
  next u hu =>
    unfold Intake.takeChunk at hs
    split at hs
    next => cases hs
    next q hq =>
      simp only at hs
      split at hs
      next => cases hs
      next received hdrain =>
        cases hs
        refine .chunk hu ?_
        unfold drain at hdrain
        split at hdrain <;> simp only [reduceCtorEq] at hdrain
        split at hdrain
        · cases hdrain
        next hshort =>
          cases hdrain
          simpa using hshort
      next => cases hs
      next =>
        cases hs
        exact .complete hu

/-- The ids of the headers a submission has read. -/
def idsRead (i : Intake) : List String :=
  i.staged.map (·.header.id) ++ i.current.toList.map (·.header.id)

/-- Whatever the store holds, the ids a submission reads differ from each other. -/
theorem GoesOn.nodup_idsRead {i' : Intake} (hgoes : i.GoesOn store i') (h : i.idsRead.Nodup) :
    i'.idsRead.Nodup := by
  cases hgoes with
  | header n hc hfree =>
    rw [isTaken, Bool.or_eq_false_iff, List.any_eq_false] at hfree
    simp only [idsRead, hc, Option.toList_none, List.map_nil, List.append_nil] at h
    simpa [idsRead, List.nodup_append, h] using hfree.2
  | chunk hu => simpa [idsRead, hu] using h
  | complete hu => simpa [idsRead, hu, task] using h

end Checking

namespace Sound

variable {store : Store}

/-- Before anything is read there is nothing to check. -/
theorem start (identity : Identity) (options : Option TaskOptions) :
    (Intake.start identity options).Sound store :=
  ⟨List.nodup_nil, (fun _ h => by cases h), (fun _ h => by cases h), (fun _ h => by cases h)⟩

/-- What goes on after a step is as sound as what was before it. -/
theorem step (h : i.Sound store) {stopped : Bool} {i' : Intake} {qs' : TaskQueues}
    (hs : i.step store stopped qs = (.going i', qs')) : i'.Sound store := by
  have hgoes := goesOn_of_step hs
  have hdistinct := hgoes.nodup_idsRead h.distinct
  cases hgoes with
  | header n hc hfree =>
    have hfresh := h.fresh
    rw [isTaken, Bool.or_eq_false_iff, Dict.contains_eq_false_iff] at hfree
    simp only [hc, Option.toList_none, List.map_nil, List.append_nil] at hfresh
    refine ⟨hdistinct, fun id hid => ?_, h.stagedFits, fun u hu => ?_⟩
    · simp only [Option.toList_some, List.map_cons, List.map_nil, List.mem_append,
        List.mem_singleton] at hid
      rcases hid with hid | rfl
      · exact hfresh id hid
      · exact hfree.1
    · cases hu
      rw [Store.isTooLong_eq_false_iff]
      exact .inr (Nat.zero_le _)
  | chunk hu hshort =>
    refine ⟨hdistinct, by simpa [hu] using h.fresh, h.stagedFits, fun v hv => ?_⟩
    cases hv
    exact hshort
  | complete hu =>
    refine ⟨hdistinct, by simpa [hu, Intake.task] using h.fresh, fun t ht => ?_, fun v hv => ?_⟩
    · rcases List.mem_append.1 ht with ht | ht
      · exact h.stagedFits t ht
      · cases List.mem_singleton.1 ht
        exact h.currentFits _ hu
    · cases hv

/-- A submission that has checked the whole batch has checked all the store asks for. -/
theorem admits (h : i.Sound store) (hstaged : i.staged = b.stored identity) : store.Admits b := by
  have hids : i.staged.map (·.header.id) = b.ids := by rw [hstaged, Batch.ids_stored]
  have hdistinct := h.distinct
  have hfresh := h.fresh
  rw [hids] at hdistinct hfresh
  refine ⟨(List.nodup_append.1 hdistinct).1, fun id hid => hfresh id (List.mem_append_left _ hid),
    ?_⟩
  intro t ht
  rw [← Store.isTooLong_eq_false_iff]
  exact h.stagedFits (b.task identity t) (hstaged ▸ List.mem_map_of_mem ht)

end Sound

end Intake

end Sidecar
