import Mathlib.Data.List.Induction
import Sidecar.Proofs.Sharing.Depot

/-!
# When a stored task is overwritten

A submission finds out whether an id is taken when it reads the id's header, and stores its batch
when it has read all of it. A call is overtaken (`Depot.Overtaken`) if an id it has read is stored
by another submission in between and the call then stores its batch all the same. This is the one
way in which a stored task is overwritten (`Depot.overwrites_iff_overtaken`). On every other
interleaving a stored task stays what it is, but for its mark (`Depot.get?_run_of_not_overwrites`).
-/

namespace Sidecar

/-- A task stays what it is, except that it may be released. -/
structure StoredTask.Remains (t t' : StoredTask) : Prop where
  sessionId : t'.sessionId = t.sessionId
  parentTaskId : t'.parentTaskId = t.parentTaskId
  options : t'.options = t.options
  header : t'.header = t.header
  payload : t'.payload = t.payload
  finalized : t.finalized = true → t'.finalized = true

namespace StoredTask.Remains

theorem refl (t : StoredTask) : t.Remains t := ⟨rfl, rfl, rfl, rfl, rfl, id⟩

theorem trans {t u v : StoredTask} (h : t.Remains u) (h' : u.Remains v) : t.Remains v :=
  ⟨h'.sessionId.trans h.sessionId, h'.parentTaskId.trans h.parentTaskId,
    h'.options.trans h.options, h'.header.trans h.header, h'.payload.trans h.payload,
    fun hf => h'.finalized (h.finalized hf)⟩

end StoredTask.Remains

namespace Depot

/-- The ids of the tasks an event puts into the store. -/
def storedIds (d : Depot) (e : DepotEvent) : List String := (d.stores e).map (·.header.id)

/-- An event puts in a task under an id that is stored already. -/
def Overwrites (d : Depot) (es : List DepotEvent) : Prop :=
  ∃ es₁ e es₂, es = es₁ ++ e :: es₂ ∧
    ∃ id ∈ (d.run es₁).storedIds e, (d.run es₁).store.tasks.contains id = true

/-- An id is stored after the submission of a call has read it, and before that submission stores
it. -/
def Overtaken (d : Depot) (es : List DepotEvent) : Prop :=
  ∃ es₁ e es₂ i es₃, es = es₁ ++ e :: (es₂ ++ .work i :: es₃) ∧
    ∃ id ∈ (d.run es₁).readIds i, id ∈ (d.run es₁).storedIds e ∧
      id ∈ (d.run (es₁ ++ e :: es₂)).storedIds (.work i)

/-! ## Which ids are stored -/

/-- After an event, an id is stored if it was stored before or is put in. -/
theorem contains_apply (d : Depot) (e : DepotEvent) (id : String) :
    (d.apply e).store.tasks.contains id =
      (d.store.tasks.contains id || decide (id ∈ d.storedIds e)) := by
  rcases d.store_apply e with ⟨created, hstore, hnone⟩ | hstore
  · obtain ⟨marked, hget⟩ := d.store.get?_finalize created id
    rw [hstore, Dict.contains, hget]
    cases h : d.store.tasks.get? id <;> simp [Dict.contains, storedIds, hnone, h]
  · rw [hstore, Store.contains_addTasks]
    rfl

/-- An id that is stored stays stored. -/
theorem contains_run (d : Depot) (es : List DepotEvent) {id : String}
    (h : d.store.tasks.contains id = true) : (d.run es).store.tasks.contains id = true := by
  induction es generalizing d with
  | nil => exact h
  | cons e es ih => exact ih (d.apply e) (by rw [contains_apply, h]; rfl)

/-- Only a submission stores something. -/
theorem eq_work_of_mem_storedIds {d : Depot} {e : DepotEvent} {id : String}
    (h : id ∈ d.storedIds e) : ∃ i, e = .work i := by
  cases e with
  | work i => exact ⟨i, rfl⟩
  | deliver | finish | advance | finalize => cases h

/-- A submission stores ids it has read. -/
theorem mem_readIds_of_mem_storedIds {d : Depot} {i : Nat} {id : String}
    (h : id ∈ d.storedIds (.work i)) : id ∈ d.readIds i := by
  simp only [storedIds, stores] at h
  split at h
  · cases h
  next a agent call hserving =>
    rw [readIds_of_serving? hserving]
    split at h
    · cases h
    next submitted hcommit =>
      rcases CreateCall.commit?_eq_some hcommit with ⟨i, qs, hwork, hstep⟩ | ⟨s, -, hnone⟩
      · simp only [CreateCall.readIds, hwork]
        rwa [(Intake.tasks_of_step hstep).2]
      · rw [hnone] at h
        cases h

/-! ## Overwriting is being overtaken -/

/-- An id that was read and is stored by now was stored after it had been read. -/
theorem stored_since_read (d : Depot) (es : List DepotEvent) {i : Nat} {id : String}
    (hstart : d.readIds i = []) (hread : id ∈ (d.run es).readIds i)
    (hstored : (d.run es).store.tasks.contains id = true) :
    ∃ es₁ e es₂, es = es₁ ++ e :: es₂ ∧ id ∈ (d.run es₁).readIds i ∧
      id ∈ (d.run es₁).storedIds e := by
  -- Induction on the events from the last one back: either the id was read and stored before the
  -- last event, or the last event stores it. It cannot be the last event that reads it.
  induction es using List.reverseRecOn with
  | nil =>
    rw [run_nil, hstart] at hread
    cases hread
  | append_singleton es e ih =>
    have hrun : d.run (es ++ [e]) = (d.run es).apply e := by simp
    rw [hrun] at hread hstored
    have hbefore : id ∈ (d.run es).readIds i := by
      rcases (d.run es).readIds_apply e i with h | h | ⟨id', h, hfree, hsame⟩
      · rwa [h] at hread
      · rw [h] at hread
        cases hread
      · rw [h] at hread
        rcases List.mem_append.1 hread with hold | hnew
        · exact hold
        · rw [List.mem_singleton.1 hnew, hsame, hfree] at hstored
          cases hstored
    rw [contains_apply, Bool.or_eq_true, decide_eq_true_eq] at hstored
    rcases hstored with hstored | hnew
    · obtain ⟨es₁, e₁, es₂, rfl, hread₁, hstored₁⟩ := ih hbefore hstored
      exact ⟨es₁, e₁, es₂ ++ [e], by simp, hread₁, hstored₁⟩
    · exact ⟨es, e, [], rfl, hbefore, hnew⟩

/-- A stored task is overwritten exactly where a submission is overtaken. -/
theorem overwrites_iff_overtaken {d : Depot} (hstart : ∀ i, d.readIds i = [])
    (es : List DepotEvent) : d.Overwrites es ↔ d.Overtaken es := by
  constructor
  · rintro ⟨es', e, es₃, rfl, id, hid, hstored⟩
    obtain ⟨i, rfl⟩ := eq_work_of_mem_storedIds hid
    obtain ⟨es₁, e₁, es₂, rfl, hread, hbetween⟩ :=
      d.stored_since_read es' (hstart i) (mem_readIds_of_mem_storedIds hid) hstored
    exact ⟨es₁, e₁, es₂, i, es₃, by simp, id, hread, hbetween, hid⟩
  · rintro ⟨es₁, e, es₂, i, es₃, rfl, id, -, hbetween, hid⟩
    refine ⟨es₁ ++ e :: es₂, .work i, es₃, by simp, id, hid, ?_⟩
    rw [run_append, run_cons]
    refine contains_run _ es₂ ?_
    rw [contains_apply, decide_eq_true hbetween, Bool.or_true]

/-! ## What remains -/

/-- An event that puts in nothing under a stored id leaves what is stored under it, but for the
mark. -/
theorem get?_apply (d : Depot) (e : DepotEvent) {id : String} {t : StoredTask}
    (hget : d.store.tasks.get? id = some t) (hfresh : id ∉ d.storedIds e) :
    ∃ t', (d.apply e).store.tasks.get? id = some t' ∧ t.Remains t' := by
  rcases d.store_apply e with ⟨created, hstore, -⟩ | hstore
  · obtain ⟨marked, hmarked⟩ := d.store.get?_finalize created id
    rw [hstore, hmarked, hget]
    exact ⟨_, rfl, rfl, rfl, rfl, rfl, rfl, fun hf => by simp [hf]⟩
  · rw [hstore, Store.get?_addTasks_of_not_mem _ hfresh, hget]
    exact ⟨t, rfl, .refl t⟩

/-- Where nothing is overwritten, a stored task remains. -/
theorem get?_run_of_not_overwrites (d : Depot) (es : List DepotEvent) (h : ¬ d.Overwrites es)
    {id : String} {t : StoredTask} (hget : d.store.tasks.get? id = some t) :
    ∃ t', (d.run es).store.tasks.get? id = some t' ∧ t.Remains t' := by
  induction es generalizing d t with
  | nil => exact ⟨t, hget, .refl t⟩
  | cons e es ih =>
    have hcontains : d.store.tasks.contains id = true := by simp [Dict.contains, hget]
    have hfresh : id ∉ d.storedIds e := fun hid => h ⟨[], e, es, rfl, id, hid, hcontains⟩
    have hlater : ¬ (d.apply e).Overwrites es := by
      rintro ⟨es₁, e', es₂, rfl, hid⟩
      exact h ⟨e :: es₁, e', es₂, rfl, hid⟩
    obtain ⟨t', hget', hremains⟩ := d.get?_apply e hget hfresh
    obtain ⟨t'', hget'', hremains'⟩ := ih (d.apply e) hlater hget'
    exact ⟨t'', hget'', hremains.trans hremains'⟩

end Depot

end Sidecar
