import Sidecar.Agent.Create
import Sidecar.Proofs.Submission.Store
import Sidecar.Proofs.Verdict

/-!
# Batches

A `Batch` is what a creation stream has asked for, read off its requests alone: the options, the
tasks whose payloads have ended, and the task whose payload is still coming. `Batch.add` takes in
one request. Neither queues nor a submission occur here.

`Store.Admits` says when a batch can be stored. A batch that cannot be stored cannot become
storable by what is added to it (`Store.Admits.of_add`), which is why a submission may give up as
soon as it sees the fault.

`examineRequest` is what the next element of a stream comes to by itself, and `scanRequests` is the
verdict on a whole stream.
-/

namespace Sidecar

/-- A task that was announced, with what has come of its payload. -/
structure Announced where
  header : TaskHeader
  payload : Bytes
deriving DecidableEq

/-- What a creation stream has asked for so far. -/
structure Batch where
  options : Option TaskOptions
  complete : List Announced
  current : Option Announced
deriving DecidableEq

namespace Batch

/-- Nothing was asked for. -/
def empty : Batch := ⟨none, [], none⟩

/-- Take in what one more request asks for. -/
def add (b : Batch) : CreateStep → Batch
  | .init options => { b with options }
  | .header header =>
    { b with complete := b.complete ++ b.current.toList, current := some ⟨header, []⟩ }
  | .data data =>
    { b with current := b.current.map fun t => { t with payload := t.payload ++ data } }
  | .dataComplete => { b with complete := b.complete ++ b.current.toList, current := none }
  | .lastTask => b

/-- The tasks, in the order in which they were announced. -/
def tasks (b : Batch) : List Announced := b.complete ++ b.current.toList

/-- The ids, in the order in which they were announced. -/
def ids (b : Batch) : List String := b.tasks.map (·.header.id)

/-- The descriptors of the tasks, once they are accepted. -/
def created (b : Batch) : List CreatedTask := b.tasks.map (·.header.created)

/-- A task of the batch as it is stored for the task an agent serves. -/
def task (b : Batch) (identity : Identity) (t : Announced) : StoredTask :=
  ⟨identity.sessionId, identity.taskId, b.options, t.header, t.payload, false⟩

/-- The tasks as they are stored for the task an agent serves. -/
def stored (b : Batch) (identity : Identity) : List StoredTask := b.tasks.map (b.task identity)

/-! ## What one request changes -/

@[simp] theorem tasks_empty : empty.tasks = [] := rfl

@[simp] theorem tasks_add_init (b : Batch) (options : Option TaskOptions) :
    (b.add (.init options)).tasks = b.tasks := rfl

@[simp] theorem tasks_add_header (b : Batch) (header : TaskHeader) :
    (b.add (.header header)).tasks = b.tasks ++ [⟨header, []⟩] := by
  simp [add, tasks]

@[simp] theorem tasks_add_dataComplete (b : Batch) : (b.add .dataComplete).tasks = b.tasks := by
  simp [add, tasks]

@[simp] theorem add_lastTask (b : Batch) : b.add .lastTask = b := rfl

/-- Data is appended to the payload that is still coming. -/
theorem tasks_add_data {b : Batch} {t : Announced} (h : b.current = some t) (data : Bytes) :
    (b.add (.data data)).tasks = b.complete ++ [{ t with payload := t.payload ++ data }] := by
  simp [add, tasks, h]

theorem tasks_of_current {b : Batch} {t : Announced} (h : b.current = some t) :
    b.tasks = b.complete ++ [t] := by
  simp [tasks, h]

theorem tasks_of_current_none {b : Batch} (h : b.current = none) : b.tasks = b.complete := by
  simp [tasks, h]

/-- A request announces at most one id, at the end. -/
theorem ids_add (b : Batch) (step : CreateStep) :
    (b.add step).ids = b.ids ++ (match step with | .header h => [h.id] | _ => []) := by
  cases step with
  | header h => simp [ids]
  | data d => cases h : b.current <;> simp [ids, tasks, add, h]
  | init | dataComplete | lastTask => simp [ids]

@[simp] theorem ids_stored (b : Batch) (identity : Identity) :
    (b.stored identity).map (·.header.id) = b.ids := by
  simp [stored, task, ids, List.map_map, Function.comp_def]

@[simp] theorem map_taskId_created (b : Batch) : b.created.map (·.taskId) = b.ids := by
  simp [created, ids, TaskHeader.created, Function.comp_def]

end Batch

/-! ## Batches that can be stored -/

/-- The store can take the batch: its ids differ from each other and are not taken, and no payload
is longer than the limit, where zero stands for no limit. -/
structure Store.Admits (store : Store) (b : Batch) : Prop where
  distinct : b.ids.Nodup
  fresh : ∀ id ∈ b.ids, store.tasks.get? id = none
  fits : ∀ t ∈ b.tasks, store.limit = 0 ∨ t.payload.length ≤ store.limit

namespace Store

instance (store : Store) (b : Batch) : Decidable (store.Admits b) :=
  decidable_of_iff (b.ids.Nodup ∧ (∀ id ∈ b.ids, store.tasks.get? id = none) ∧
      ∀ t ∈ b.tasks, store.limit = 0 ∨ t.payload.length ≤ store.limit)
    ⟨fun ⟨h₁, h₂, h₃⟩ => ⟨h₁, h₂, h₃⟩, fun ⟨h₁, h₂, h₃⟩ => ⟨h₁, h₂, h₃⟩⟩

/-- A batch that can be stored could be stored before its last request, too. -/
theorem Admits.of_add {store : Store} {b : Batch} {step : CreateStep}
    (h : store.Admits (b.add step)) : store.Admits b := by
  have hids := b.ids_add step
  refine ⟨?_, fun id hid => h.fresh id (by simp [hids, hid]), ?_⟩
  · have := h.distinct
    rw [hids] at this
    exact (List.nodup_append.1 this).1
  · intro t ht
    cases step with
    | init | header | dataComplete | lastTask => exact h.fits t (by simp [ht])
    | data d =>
      cases hc : b.current with
      | none => exact h.fits t (by simpa [Batch.tasks, Batch.add, hc] using ht)
      | some u =>
        rw [Batch.tasks_of_current hc, List.mem_append, List.mem_singleton] at ht
        have hfits := h.fits
        rw [Batch.tasks_add_data hc] at hfits
        rcases ht with ht | rfl
        · exact hfits t (by simp [ht])
        · have := hfits { t with payload := t.payload ++ d } (by simp)
          simp only [List.length_append] at this
          omega

end Store

/-! ## The requests by themselves -/

/-- What the next element of a stream comes to in a state of the order: the outcome it decides, or
what it asks for and the state it leads to. The last task decides nothing by itself. -/
def examineRequest (token : Token) (state : CreationState) (item : Except Cause CreateRequest) :
    Except CreateResult (CreateStep × CreationState) :=
  match item with
  | .error cause => .error (.error (.transport cause))
  | .ok request =>
    match token.refusal? request.token with
    | some refusal => .error (.ok (.error request.token refusal.message))
    | none =>
      match CreateStep.ofKind? request.kind with
      | none => .error (.error (.violation (.unknownCase request.caseName)))
      | some step =>
        match taskCreation.next? state step.event with
        | none =>
          .error (.error (.violation (.outOfOrder
            ⟨"TaskCreation", taskCreation.stateName state, taskCreation.eventName step.event⟩)))
        | some next => .ok (step, next)

/-- The verdict on a part of a creation stream. -/
abbrev CreateVerdict := Verdict CreationState Batch CreateResult Batch

/-- The verdict on the next element of a stream that has asked for a batch. -/
def examineCreation (token : Token) (state : CreationState) (b : Batch)
    (item : Except Cause CreateRequest) : CreateVerdict :=
  match examineRequest token state item with
  | .error result => .decided result
  | .ok (.lastTask, _) => .complete b
  | .ok (step, next) => .undecided next (b.add step)

/-- The verdict on a whole stream, or on what is left of it. -/
def scanRequests (token : Token) (state : CreationState) (b : Batch)
    (items : List (Except Cause CreateRequest)) : CreateVerdict :=
  scanStream (examineCreation token) state b items

theorem scanRequests_cons (token : Token) (state : CreationState) (b : Batch)
    (item : Except Cause CreateRequest) (rest : List (Except Cause CreateRequest)) :
    scanRequests token state b (item :: rest) =
      match examineRequest token state item with
      | .error result => .decided result
      | .ok (.lastTask, _) => .complete b
      | .ok (step, next) => scanRequests token next (b.add step) rest := by
  rw [scanRequests, scanStream, examineCreation]
  cases examineRequest token state item with
  | error result => rfl
  | ok found =>
    obtain ⟨step, next⟩ := found
    cases step <;> rfl

/-- A batch is complete with a last task in its turn and with the right token, and with nothing
else. -/
theorem examineCreation_eq_complete_iff {token : Token} {state : CreationState} {b b' : Batch}
    {item : Except Cause CreateRequest} :
    examineCreation token state b item = .complete b' ↔
      b' = b ∧ state = .awaitingHeaderOrEnd ∧ ∃ request, item = .ok request ∧
        token.refusal? request.token = none ∧ CreateStep.ofKind? request.kind = some .lastTask := by
  cases item with
  | error cause => simp [examineCreation, examineRequest]
  | ok request =>
    cases htoken : token.refusal? request.token with
    | some refusal => simp [examineCreation, examineRequest, htoken]
    | none =>
      cases hstep : CreateStep.ofKind? request.kind with
      | none => simp [examineCreation, examineRequest, htoken, hstep]
      | some step =>
        cases state <;> cases step <;>
          simp [examineCreation, examineRequest, htoken, hstep, taskCreation, CreateStep.event,
            eq_comm]

/-- Only the last task leads to the end of the order. -/
theorem next?_eq_terminal_iff {state next : CreationState} {step : CreateStep}
    (h : taskCreation.next? state step.event = some next) :
    next = .terminal ↔ step = .lastTask := by
  cases state <;> cases step <;> simp [taskCreation, CreateStep.event] at h <;> subst h <;> simp

/-- No request by itself is answered as successful. -/
theorem examineRequest_ne_successful (token : Token) (state : CreationState)
    (item : Except Cause CreateRequest) {echo : String} :
    examineRequest token state item ≠ .error (.ok ⟨echo, .successful⟩) := by
  unfold examineRequest
  intro h
  split at h
  · cases h
  · split at h
    · simp [CreateReply.error] at h
    · split at h
      · cases h
      · split at h <;> cases h

/-- No stream is answered as successful before it is complete. -/
theorem scanRequests_ne_successful (token : Token) (state : CreationState) (b : Batch)
    (items : List (Except Cause CreateRequest)) {echo : String} :
    scanRequests token state b items ≠ .decided (.ok ⟨echo, .successful⟩) := by
  induction items generalizing state b with
  | nil =>
    intro h
    cases h
  | cons item rest ih =>
    rw [scanRequests_cons]
    intro h
    split at h
    next result hexamine =>
      cases h
      exact examineRequest_ne_successful _ _ _ hexamine
    next => cases h
    next step next _ _ => exact ih _ _ h

end Sidecar
