import Sidecar.Proofs.Ingestion.Sequential
import Sidecar.Proofs.Session.Log

/-!
# Scripts

A `Script` is a call as its worker plays it: the whole stream of a creation call or of a result
call. `Script.alone` runs it and nothing else. What the call adds to the agent and to the store, if
it succeeds, is its `Gain`: a batch of tasks or a result (`Script.alone_eq`).

Gains of different calls do not get in each other's way where they have no id and no key in common:
whatever was gained before and after it, a gain is seen in the store as if it were the only one
(`StorePart.find?_gains`).
-/

namespace Sidecar

/-! ## Gains -/

/-- What a call adds that succeeds: a batch of tasks, or a result. -/
inductive Gain where
  | batch (b : Batch)
  | result (d : Deposit)

namespace Gain

/-- The ids of the tasks. -/
def ids : Gain → List String
  | batch b => b.ids
  | result _ => []

/-- The key of the result. -/
def keys : Gain → List String
  | batch _ => []
  | result d => [d.key]

/-- The tasks that count as created. -/
def created : Gain → List CreatedTask
  | batch b => b.created
  | result _ => []

end Gain

namespace Store

/-- Put in what a call adds for the task an agent serves. -/
def gain (identity : Identity) (store : Store) : Gain → Store
  | .batch b => store.addTasks (b.stored identity)
  | .result d => store.addResult d.key (d.stored identity)

/-- Put in what several calls add, one after the other. -/
def gains (identity : Identity) (store : Store) (gs : List Gain) : Store :=
  gs.foldl (gain identity) store

variable {identity : Identity} {store store' : Store} {g : Gain}

@[simp] theorem limit_gain (identity : Identity) (store : Store) (g : Gain) :
    (store.gain identity g).limit = store.limit := by
  cases g <;> rfl

theorem limit_gains (identity : Identity) (store : Store) (gs : List Gain) :
    (store.gains identity gs).limit = store.limit := by
  induction gs generalizing store with
  | nil => rfl
  | cons g gs ih => exact (ih _).trans (limit_gain identity store g)

theorem gains_concat (identity : Identity) (store : Store) (gs : List Gain) (g : Gain) :
    store.gains identity (gs ++ [g]) = (store.gains identity gs).gain identity g := by
  simp [gains]

/-- A gain leaves alone what is stored under other ids. -/
theorem get?_tasks_gain_of_not_mem {id : String} (h : id ∉ g.ids) :
    (store.gain identity g).tasks.get? id = store.tasks.get? id := by
  cases g with
  | batch b =>
    refine store.get?_addTasks_of_not_mem ?_
    rw [Batch.ids_stored]
    exact h
  | result d => rfl

/-- A gain leaves alone what is stored under other keys. -/
theorem get?_results_gain_of_not_mem {key : String} (h : key ∉ g.keys) :
    (store.gain identity g).results.get? key = store.results.get? key := by
  cases g with
  | batch b => rfl
  | result d =>
    refine Dict.get?_insert_of_ne _ _ fun heq => h ?_
    simp [Gain.keys, heq]

/-- What is found under the ids of a gain is its own, whatever was stored before. -/
theorem get?_tasks_gain_of_mem {id : String} (hnd : g.ids.Nodup) (h : id ∈ g.ids) :
    (store.gain identity g).tasks.get? id = (store'.gain identity g).tasks.get? id := by
  cases g with
  | batch b =>
    rw [Gain.ids, ← b.ids_stored identity] at hnd h
    obtain ⟨t, ht, rfl⟩ := List.mem_map.1 h
    rw [gain, gain, get?_addTasks_of_mem _ hnd ht, get?_addTasks_of_mem _ hnd ht]
  | result d => cases h

/-- What is found under the key of a gain is its own, whatever was stored before. -/
theorem get?_results_gain_of_mem {key : String} (h : key ∈ g.keys) :
    (store.gain identity g).results.get? key = (store'.gain identity g).results.get? key := by
  cases g with
  | batch b => cases h
  | result d =>
    obtain rfl := List.mem_singleton.1 h
    simp [gain, addResult]

end Store

/-- A part of the stores, and the keys under which a gain puts something there. -/
structure StorePart (α : Type) where
  find? : Store → String → Option α
  keys : Gain → List String
  find?_gain_of_not_mem : ∀ (identity : Identity) (store : Store) (g : Gain) (key : String),
    key ∉ keys g → find? (store.gain identity g) key = find? store key
  find?_gain_of_mem : ∀ (identity : Identity) (store store' : Store) (g : Gain) (key : String),
    g.ids.Nodup → key ∈ keys g →
      find? (store.gain identity g) key = find? (store'.gain identity g) key

namespace StorePart

/-- The tasks by their ids. -/
def tasks : StorePart StoredTask where
  find? store id := store.tasks.get? id
  keys := Gain.ids
  find?_gain_of_not_mem _ _ _ _ := Store.get?_tasks_gain_of_not_mem
  find?_gain_of_mem _ _ _ _ _ := Store.get?_tasks_gain_of_mem

/-- The results by their keys. -/
def results : StorePart StoredResult where
  find? store key := store.results.get? key
  keys := Gain.keys
  find?_gain_of_not_mem _ _ _ _ := Store.get?_results_gain_of_not_mem
  find?_gain_of_mem _ _ _ _ _ _ := Store.get?_results_gain_of_mem

variable {α : Type} (part : StorePart α) {identity : Identity} {store : Store} {g : Gain}
  {gs before after : List Gain} {key : String}

/-- Gains leave alone what is found under other keys. -/
theorem find?_gains_of_not_mem (h : ∀ g ∈ gs, key ∉ part.keys g) :
    part.find? (store.gains identity gs) key = part.find? store key := by
  induction gs generalizing store with
  | nil => rfl
  | cons g gs ih =>
    rw [List.forall_mem_cons] at h
    exact (ih h.2).trans (part.find?_gain_of_not_mem identity store g key h.1)

/-- Gains that have not its key leave what a gain puts in as it is. -/
theorem find?_gains (hnd : g.ids.Nodup) (hkey : key ∈ part.keys g)
    (hafter : ∀ g' ∈ after, key ∉ part.keys g') :
    part.find? (store.gains identity (before ++ g :: after)) key =
      part.find? (store.gain identity g) key := by
  have hsplit : store.gains identity (before ++ g :: after) =
      ((store.gains identity before).gain identity g).gains identity after := by
    simp [Store.gains]
  rw [hsplit, part.find?_gains_of_not_mem hafter]
  exact part.find?_gain_of_mem identity _ _ g key hnd hkey

end StorePart

/-! ## Scripts -/

/-- A call as its worker plays it: its whole stream. -/
inductive Script where
  | create (items : List (Except Cause CreateRequest))
  | result (items : List (Except Cause ResultRequest))

namespace Script

/-- What happens to a session where the call is opened under a name and its stream is delivered,
element by element and up to its end. -/
def events (name : String) : Script → List SessionEvent
  | create items => .openCreate name :: (items.map (.createItem name) ++ [.finish name])
  | result items => .openResult name :: (items.map (.resultItem name) ++ [.finish name])

/-- The call runs and nothing else. -/
def alone (agent : Agent) (store : Store) : Script → Session
  | create items => agent.createTask (.ofStore store) (items.map .ofItem)
  | result items => agent.sendResult (.ofStore store) (items.map .ofItem)

/-- The ids of the batch the stream brings, if it brings a whole one. -/
def ids (token : Token) : Script → List String
  | create items =>
    match scanRequests token .idle .empty items with
    | .complete b => b.ids
    | .undecided _ _ | .decided _ => []
  | result _ => []

/-- The key of the result the stream brings, if it brings a whole one. -/
def keys (token : Token) : Script → List String
  | create _ => []
  | result items =>
    match scanResults token .idle .empty items with
    | .complete (d, _) => [d.key]
    | .undecided _ _ | .decided _ => []

/-- What the call adds to a store, if it brings something whole and the store can take it. -/
def gain? (agent : Agent) (store : Store) : Script → Option Gain
  | create items =>
    match scanRequests agent.token .idle .empty items with
    | .complete b => if store.Admits b then some (.batch b) else none
    | .undecided _ _ | .decided _ => none
  | result items =>
    match scanResults agent.token .idle .empty items with
    | .complete (d, _) => if store.Accepts d then some (.result d) else none
    | .undecided _ _ | .decided _ => none

/-- The outcome of one pass over the stream. -/
def outcome (agent : Agent) (store : Store) : Script → CallResult
  | create items => .create (agent.createSequentially store items).1
  | result items => .result (agent.sendSequentially store items).1

/-- The tasks the call adds to those the agent has created. -/
def created (agent : Agent) (store : Store) (script : Script) : List CreatedTask :=
  (script.gain? agent store).elim [] Gain.created

/-- The store as the call leaves it. -/
def stored (agent : Agent) (store : Store) (script : Script) : Store :=
  (script.gain? agent store).elim store (store.gain agent.identity)

variable {agent : Agent} {store : Store}

/-- A gain has the ids of its script, and they differ from each other. -/
theorem ids_of_gain? {script : Script} {g : Gain} (h : script.gain? agent store = some g) :
    g.ids = script.ids agent.token ∧ g.keys = script.keys agent.token ∧ g.ids.Nodup := by
  cases script with
  | create items =>
    simp only [gain?] at h
    cases hscan : scanRequests agent.token .idle .empty items with
    | undecided state b => simp [hscan] at h
    | decided result => simp [hscan] at h
    | complete b =>
      simp only [hscan, Option.ite_none_right_eq_some, Option.some.injEq] at h
      obtain ⟨hadmits, rfl⟩ := h
      exact ⟨by simp [ids, hscan, Gain.ids], rfl, hadmits.distinct⟩
  | result items =>
    simp only [gain?] at h
    cases hscan : scanResults agent.token .idle .empty items with
    | undecided state d => simp [hscan] at h
    | decided result => simp [hscan] at h
    | complete found =>
      simp only [hscan, Option.ite_none_right_eq_some, Option.some.injEq] at h
      obtain ⟨-, rfl⟩ := h
      exact ⟨rfl, by simp [keys, hscan, Gain.keys], List.nodup_nil⟩

/-- What one pass over a creation stream leaves. -/
theorem createSequentially_eq (items : List (Except Cause CreateRequest)) :
    (agent.createSequentially store items).2 =
      ({ agent with created := agent.created ++ (create items).created agent store },
        (create items).stored agent store) := by
  simp only [Agent.createSequentially, created, stored, gain?]
  cases scanRequests agent.token .idle .empty items with
  | undecided state b => simp
  | decided result => simp
  | complete b => by_cases h : store.Admits b <;> simp [h, Gain.created, Store.gain]

/-- What one pass over a result stream leaves. -/
theorem sendSequentially_eq (items : List (Except Cause ResultRequest)) :
    (result items).created agent store = [] ∧
      (agent.sendSequentially store items).2 = (result items).stored agent store := by
  simp only [Agent.sendSequentially, created, stored, gain?]
  cases scanResults agent.token .idle .empty items with
  | undecided state b => exact ⟨rfl, rfl⟩
  | decided result => exact ⟨rfl, rfl⟩
  | complete found => by_cases h : store.Accepts found.1 <;> simp [h, Gain.created, Store.gain]

/-- A call that runs alone comes to the outcome of one pass over its stream, and leaves what it
adds. -/
theorem alone_eq (store : Store) (hrun : agent.stopped = false) (script : Script) :
    ∃ call : Call, call.result? = some (script.outcome agent store) ∧
      script.alone agent store = Session.alone
        { agent with created := agent.created ++ script.created agent store }
        (.ofStore (script.stored agent store)) call := by
  cases script with
  | create items =>
    obtain ⟨n, agent', backend', call', hschedule, hsession, hidle⟩ :=
      CreateCall.exists_schedule_run agent (.ofStore store) (.onStream items)
    have hstage := (hschedule.induct (CreateCall.stage_onStream agent store items)
      fun _ _ _ _ hstage hmove => hstage.moves hrun hmove).1
    have hend := hstage.eq_createSequentially hrun hidle
    rw [createSequentially_eq] at hend
    cases hend
    exact ⟨_, rfl, hsession⟩
  | result items =>
    have hend : (result items).alone agent store = _ :=
      ResultCall.settles_eq_sendSequentially hrun (Session.settles_run _)
    obtain ⟨hcreated, hstored⟩ : _ ∧ (agent.sendSequentially store items).2 = _ :=
      sendSequentially_eq items
    refine ⟨.result (.ended (agent.sendSequentially store items).1), rfl, ?_⟩
    rw [hend, hstored, hcreated, List.append_nil]

end Script

end Sidecar
