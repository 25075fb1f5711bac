import Sidecar.Submission.Store

/-!
# What the store keeps

Putting a batch into the store is seen under the ids of the batch and nowhere else
(`Store.get?_addTasks_of_mem`, `Store.get?_addTasks_of_not_mem`), and finalizing changes no more
than the mark of a task (`Store.get?_finalize`).
-/

namespace Sidecar

namespace Store

/-- A length is refused exactly if there is a limit below it. -/
theorem isTooLong_eq_false_iff (store : Store) (length : Nat) :
    store.isTooLong length = false ↔ store.limit = 0 ∨ length ≤ store.limit := by
  simp only [isTooLong, Bool.and_eq_false_iff, decide_eq_false_iff_not]
  omega

/-- A batch leaves alone what is stored under other ids. -/
theorem get?_addTasks_of_not_mem (store : Store) {tasks : List StoredTask} {id : String}
    (h : id ∉ tasks.map (·.header.id)) :
    (store.addTasks tasks).tasks.get? id = store.tasks.get? id := by
  unfold addTasks
  generalize store.tasks = dict
  induction tasks generalizing dict with
  | nil => rfl
  | cons t tasks ih =>
    simp only [List.map_cons, List.mem_cons, not_or] at h
    rw [List.foldl_cons, ih h.2, Dict.get?_insert_of_ne _ _ h.1]

/-- A batch without repeated ids is found whole, each task under its id. -/
theorem get?_addTasks_of_mem (store : Store) {tasks : List StoredTask} {t : StoredTask}
    (hnd : (tasks.map (·.header.id)).Nodup) (ht : t ∈ tasks) :
    (store.addTasks tasks).tasks.get? t.header.id = some t := by
  unfold addTasks
  generalize store.tasks = dict
  induction tasks generalizing dict with
  | nil => cases ht
  | cons s tasks ih =>
    rw [List.map_cons, List.nodup_cons] at hnd
    rcases List.mem_cons.1 ht with rfl | ht
    · have := get?_addTasks_of_not_mem ⟨dict.insert t.header.id t, ∅, 0⟩ hnd.1
      simpa [addTasks] using this
    · exact ih hnd.2 ht _

/-- Every id of a batch has one of the batch's tasks then. -/
theorem exists_get?_addTasks (store : Store) {tasks : List StoredTask} {id : String}
    (h : id ∈ tasks.map (·.header.id)) :
    ∃ t ∈ tasks, (store.addTasks tasks).tasks.get? id = some t := by
  unfold addTasks
  generalize store.tasks = dict
  induction tasks generalizing dict with
  | nil => cases h
  | cons s tasks ih =>
    by_cases hmem : id ∈ tasks.map (·.header.id)
    · obtain ⟨t, ht, hget⟩ := ih hmem (dict.insert s.header.id s)
      exact ⟨t, List.mem_cons_of_mem _ ht, hget⟩
    · obtain rfl : id = s.header.id := (List.mem_cons.1 h).resolve_right hmem
      have hkept := get?_addTasks_of_not_mem ⟨dict.insert s.header.id s, ∅, 0⟩ hmem
      exact ⟨s, List.mem_cons_self, by simpa [addTasks] using hkept⟩

/-- After a batch, an id is taken if it was taken before or is one of the batch. -/
theorem contains_addTasks (store : Store) (tasks : List StoredTask) (id : String) :
    (store.addTasks tasks).tasks.contains id =
      (store.tasks.contains id || decide (id ∈ tasks.map (·.header.id))) := by
  unfold addTasks
  generalize store.tasks = dict
  induction tasks generalizing dict with
  | nil => simp
  | cons t tasks ih =>
    rw [List.foldl_cons, ih]
    by_cases h : id = t.header.id <;> simp [Dict.contains, Dict.get?_insert, h]

/-- Releasing a list of tasks changes at most the mark of a task, and only to set it. -/
theorem get?_foldl_release (created : List CreatedTask) (tasks : Dict StoredTask) (id : String) :
    (created.foldl release tasks).get? id =
      (tasks.get? id).map fun t =>
        { t with finalized := t.finalized || decide (id ∈ created.map (·.taskId)) } := by
  induction created generalizing tasks with
  | nil => cases h : tasks.get? id <;> simp [h]
  | cons c created ih =>
    rw [List.foldl_cons, ih, release, Dict.get?_modify]
    by_cases h : id = c.taskId
    · cases tasks.get? id <;> simp [h]
    · simp [h]

/-- Tasks that are all stored are released. -/
theorem finalize_of_stored {store : Store} {created : List CreatedTask}
    (h : ∀ c ∈ created, store.tasks.contains c.taskId = true) :
    store.finalize created =
      (.ok created.length, { store with tasks := created.foldl release store.tasks }) := by
  have hfind : created.find? (fun c => !store.tasks.contains c.taskId) = none :=
    List.find?_eq_none.2 fun c hc => by simp [h c hc]
  rw [finalize, hfind]

/-- Finalizing keeps every task but for its mark, which it sets or leaves. -/
theorem get?_finalize (store : Store) (created : List CreatedTask) (id : String) :
    ∃ marked : Bool, (store.finalize created).2.tasks.get? id =
      (store.tasks.get? id).map fun t => { t with finalized := t.finalized || marked } := by
  unfold finalize
  split
  · exact ⟨false, by cases store.tasks.get? id <;> simp⟩
  · exact ⟨_, get?_foldl_release created store.tasks id⟩

end Store

end Sidecar
