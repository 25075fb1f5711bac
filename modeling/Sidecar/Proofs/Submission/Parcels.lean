import Sidecar.Proofs.Submission.Effort
import Sidecar.Proofs.Submission.Store

/-!
# Batches and what a store makes of them

A batch is what its queues bring: headers, each with the parts of a payload, and an ending of every
queue (`TaskQueues.Brings`). Which batches a store takes is said without queues. Nothing is stored
but tasks with new ids and whole payloads that are not too long (`Store.Stages`), and a batch that
is not stored has a first fault (`Store.Faults`): an id, the length of a payload, the ending of a
payload or that of the batch itself.
-/

namespace Sidecar

/-! ## Queues that are read to their end -/

namespace Queue

variable {α : Type} {q q' : Queue α} {a : α} {items : List α} {ending : Ending}

/-- The error that an ending is to the reader, unless it is a clean one. -/
def Ending.error? : Ending → Option QueueError
  | closed => none
  | failed e => some e
  | dropped => some .abandoned

/-- What the reader finds at the ending. -/
def Ending.received (ending : Ending) : Received α :=
  match ending.error? with
  | none => .ended
  | some e => .error e

theorem Ending.error?_eq_none_iff : ending.error? = none ↔ ending = .closed := by
  cases ending <;> simp [error?]

/-- Reading the queue to its end yields these items and then the ending. -/
structure Brings (q : Queue α) (items : List α) (ending : Ending) : Prop where
  unfinished : q.finished = false
  yields : ∃ q', q.takeAll false = (items, ending.received, q')

/-- Taking an item out does not finish the queue. -/
theorem finished_of_recv_item (h : q.recv false = (.item a, q')) : q'.finished = false := by
  unfold recv at h
  split at h
  · cases h
  next hopen =>
    rw [if_neg Bool.false_ne_true] at h
    split at h
    · cases h
      exact Bool.eq_false_iff.2 hopen
    · cases h
    · cases h
    · split at h <;> cases h

/-- Taking the end out leaves one entry less. -/
theorem length_buffer_of_recv_ended (hopen : q.finished = false)
    (h : q.recv false = (.ended, q')) : q'.buffer.length + 1 = q.buffer.length := by
  unfold recv at h
  rw [hopen, if_neg Bool.false_ne_true, if_neg Bool.false_ne_true] at h
  split at h
  · cases h
  next hbuffer =>
    cases h
    simp [hbuffer]
  · cases h
  · split at h <;> cases h

namespace Brings

/-- The next item is taken out of the queue, and the queue brings the others. -/
theorem exists_recv_item (h : q.Brings (a :: items) ending) :
    ∃ q', q.recv false = (.item a, q') ∧ q'.Brings items ending ∧
      q'.buffer.length + 1 = q.buffer.length := by
  obtain ⟨last, hyields⟩ := h.yields
  rw [takeAll, takeItems] at hyields
  cases hrecv : q.recv false with
  | mk received q' =>
    rw [hrecv] at hyields
    cases received with
    | item b =>
      have hlength := length_buffer_of_recv_item hrecv
      rw [← hlength] at hyields
      simp only [Prod.mk.injEq, List.cons.injEq] at hyields
      obtain ⟨⟨rfl, hitems⟩, hlast, -⟩ := hyields
      refine ⟨q', rfl, ⟨finished_of_recv_item hrecv, ?_⟩, hlength⟩
      exact ⟨_, Prod.ext hitems (Prod.ext hlast rfl)⟩
    | ended | error | pending => cases hyields

/-- After the items the reader finds the ending. -/
theorem exists_recv_ending (h : q.Brings [] ending) :
    ∃ q', q.recv false = (ending.received, q') ∧
      (ending = .closed → q'.buffer.length + 1 = q.buffer.length) := by
  obtain ⟨last, hyields⟩ := h.yields
  rw [takeAll, takeItems] at hyields
  cases hrecv : q.recv false with
  | mk received q' =>
    rw [hrecv] at hyields
    cases received with
    | item b => cases hyields
    | ended | error | pending =>
      simp only [Prod.mk.injEq, true_and] at hyields
      obtain ⟨hlast, rfl⟩ := hyields
      refine ⟨q', by rw [hlast], fun hclosed => length_buffer_of_recv_ended h.unfinished ?_⟩
      have hend : ending.received = (.ended : Received α) := by
        rw [hclosed]
        rfl
      rw [hrecv, hlast, hend]

end Brings

/-- A queue that was filled brings what was put in. -/
theorem brings_filled (items : List α) (ending : Ending) :
    (filled items ending).Brings items ending := by
  refine ⟨rfl, ?_⟩
  induction items with
  | nil => cases ending <;> exact ⟨_, rfl⟩
  | cons a items ih =>
    obtain ⟨q', hrest⟩ := ih
    have hrecv : (filled (a :: items) ending).recv false = (.item a, filled items ending) := rfl
    refine ⟨q', ?_⟩
    rw [takeAll, takeItems, hrecv]
    simp only
    rw [show (filled (a :: items) ending).buffer.length =
      (filled items ending).buffer.length + 1 from rfl, ← takeAll, hrest]

end Queue

/-! ## What a store makes of a batch -/

/-- A task as it is handed in: its header, and a payload in parts with an ending of its own. -/
structure Parcel where
  header : TaskHeader
  parts : List Bytes
  ending : Queue.Ending

namespace Parcel

/-- The payload, however it was cut. -/
def payload (p : Parcel) : Bytes := p.parts.flatten

/-- The task as it is stored for the task an agent serves. -/
def task (p : Parcel) (identity : Identity) (options : Option TaskOptions) : StoredTask :=
  ⟨identity.sessionId, identity.taskId, options, p.header, p.payload, false⟩

end Parcel

/-- Every id is new, and every payload is whole and not too long. -/
structure Store.Stages (store : Store) (parcels : List Parcel) : Prop where
  distinct : (parcels.map (·.header.id)).Nodup
  fresh : ∀ p ∈ parcels, store.tasks.get? p.header.id = none
  closed : ∀ p ∈ parcels, p.ending = .closed
  short : ∀ p ∈ parcels, store.limit = 0 ∨ p.payload.length ≤ store.limit

/-- Is the id of another parcel new? -/
def Store.Offers (store : Store) (parcels : List Parcel) (id : String) : Prop :=
  store.tasks.get? id = none ∧ id ∉ parcels.map (·.header.id)

/-- The first fault of a batch: an id is taken, a payload is too long or did not come to a clean
end, or nothing else is wrong but the batch itself did not come to one. -/
inductive Store.Faults (store : Store) (parcels : List Parcel) (ending : Queue.Ending) :
    Cause → Prop where
  | taken {done left : List Parcel} {p : Parcel} (hparcels : parcels = done ++ p :: left)
      (hdone : store.Stages done) (htaken : ¬ store.Offers done p.header.id) :
      Faults store parcels ending (Intake.idTaken p.header.id)
  | tooLong {done left : List Parcel} {p : Parcel} (hparcels : parcels = done ++ p :: left)
      (hdone : store.Stages done) (hfree : store.Offers done p.header.id)
      (hlong : ¬ (store.limit = 0 ∨ p.payload.length ≤ store.limit)) :
      Faults store parcels ending (payloadTooLong ("task " ++ p.header.id) store.limit)
  | broken {done left : List Parcel} {p : Parcel} {e : QueueError}
      (hparcels : parcels = done ++ p :: left) (hdone : store.Stages done)
      (hfree : store.Offers done p.header.id)
      (hshort : store.limit = 0 ∨ p.payload.length ≤ store.limit)
      (herror : p.ending.error? = some e) :
      Faults store parcels ending (payloadBroken ("task " ++ p.header.id) e)
  | unended {e : QueueError} (hdone : store.Stages parcels) (herror : ending.error? = some e) :
      Faults store parcels ending (Intake.headersBroken e)

namespace Store

variable {store : Store} {parcels done left : List Parcel} {p : Parcel}

/-- What was staged of a batch could be staged by itself. -/
theorem Stages.of_append (h : store.Stages (done ++ p :: left)) :
    store.Stages done ∧ store.Offers done p.header.id ∧ p.ending = .closed ∧
      (store.limit = 0 ∨ p.payload.length ≤ store.limit) := by
  have hp : p ∈ done ++ p :: left := by simp
  have hdistinct := h.distinct
  rw [List.map_append, List.map_cons, List.nodup_append] at hdistinct
  obtain ⟨hdone, -, hapart⟩ := hdistinct
  refine ⟨⟨hdone, ?_, ?_, ?_⟩, ⟨h.fresh p hp, fun hmem => ?_⟩, h.closed p hp, h.short p hp⟩
  · exact fun d hd => h.fresh d (List.mem_append_left _ hd)
  · exact fun d hd => h.closed d (List.mem_append_left _ hd)
  · exact fun d hd => h.short d (List.mem_append_left _ hd)
  · exact hapart _ hmem _ List.mem_cons_self rfl

/-- One more parcel is staged. -/
theorem Stages.concat (h : store.Stages done) (hfree : store.Offers done p.header.id)
    (hclosed : p.ending = .closed) (hshort : store.limit = 0 ∨ p.payload.length ≤ store.limit) :
    store.Stages (done ++ [p]) := by
  have hmem : ∀ {d}, d ∈ done ++ [p] → d ∈ done ∨ d = p := by simp
  refine ⟨?_, fun d hd => ?_, fun d hd => ?_, fun d hd => ?_⟩
  · rw [List.map_append, List.map_singleton, List.nodup_append]
    refine ⟨h.distinct, by simp, fun id hid id' hid' heq => hfree.2 ?_⟩
    rw [← List.mem_singleton.1 hid', ← heq]
    exact hid
  · rcases hmem hd with hd | rfl
    · exact h.fresh d hd
    · exact hfree.1
  · rcases hmem hd with hd | rfl
    · exact h.closed d hd
    · exact hclosed
  · rcases hmem hd with hd | rfl
    · exact h.short d hd
    · exact hshort

/-- A batch with a fault is not one that can be stored. -/
theorem Faults.not_stages {ending : Queue.Ending} {cause : Cause}
    (h : store.Faults parcels ending cause) : ¬ (ending = .closed ∧ store.Stages parcels) := by
  rintro ⟨hending, hstages⟩
  cases h with
  | taken hparcels hdone htaken => exact htaken (hparcels ▸ hstages).of_append.2.1
  | tooLong hparcels hdone hfree hlong => exact hlong (hparcels ▸ hstages).of_append.2.2.2
  | broken hparcels hdone hfree hshort herror =>
    rw [Queue.Ending.error?_eq_none_iff.2 (hparcels ▸ hstages).of_append.2.2.1] at herror
    cases herror
  | unended hdone herror =>
    rw [Queue.Ending.error?_eq_none_iff.2 hending] at herror
    cases herror

end Store

/-- The verdict on a batch: it can be stored as a whole, or it has a fault. -/
inductive Store.Judges (store : Store) (identity : Identity) (options : Option TaskOptions)
    (parcels : List Parcel) (ending : Queue.Ending) : Except Cause Submitted → Prop where
  | whole (hending : ending = .closed) (hstages : store.Stages parcels) :
      Judges store identity options parcels ending
        (.ok ⟨parcels.map (·.task identity options), parcels.map (·.header.created)⟩)
  | refused {cause : Cause} (h : store.Faults parcels ending cause) :
      Judges store identity options parcels ending (.error cause)

/-! ## The queues of a batch -/

/-- The queues bring the parcels, each with the number of its payload's queue, and then the ending
of the batch. -/
structure TaskQueues.Brings (qs : TaskQueues) (parcels : List (Parcel × Nat))
    (ending : Queue.Ending) : Prop where
  headers : qs.headers.Brings (parcels.map fun e => (e.1.header, e.2)) ending
  distinct : (parcels.map (·.2)).Nodup
  payloads : ∀ e ∈ parcels, ∃ q, qs.payloads[e.2]? = some q ∧ q.Brings e.1.parts e.1.ending

/-- The queues that were filled with a batch. -/
def TaskQueues.filled (parcels : List Parcel) (ending : Queue.Ending) : TaskQueues :=
  ⟨.filled (parcels.mapIdx fun n p => (p.header, n)) ending,
    parcels.map fun p => .filled p.parts p.ending⟩

/-- They bring what they were filled with. -/
theorem TaskQueues.brings_filled (parcels : List Parcel) (ending : Queue.Ending) :
    (filled parcels ending).Brings parcels.zipIdx ending := by
  refine ⟨?_, ?_, fun e he => ?_⟩
  · rw [filled, List.mapIdx_eq_zipIdx_map]
    exact Queue.brings_filled _ _
  · rw [List.zipIdx_map_snd]
    exact List.nodup_range'
  · have hget := List.mem_zipIdx_iff_getElem?.1 he
    exact ⟨_, by simp [filled, hget], Queue.brings_filled _ _⟩

/-- Reading one payload leaves the other queues as they were. -/
theorem TaskQueues.Brings.set {qs : TaskQueues} {left : List (Parcel × Nat)}
    {ending : Queue.Ending} (h : qs.Brings left ending) {n : Nat} (hn : n ∉ left.map (·.2))
    (q : Queue Bytes) :
    ({ qs with payloads := qs.payloads.set n q } : TaskQueues).Brings left ending := by
  refine ⟨h.headers, h.distinct, fun e he => ?_⟩
  obtain ⟨q', hget, hq'⟩ := h.payloads e he
  have hne : n ≠ e.2 := fun heq => hn (heq ▸ List.mem_map_of_mem he)
  exact ⟨q', (List.getElem?_set_ne hne).trans hget, hq'⟩

end Sidecar
