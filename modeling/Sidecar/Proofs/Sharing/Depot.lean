import Sidecar.Proofs.Sharing.Reading

/-!
# Agents that share a store

A `Depot` is one store, the agents that submit to it, and their creation calls. Whatever can happen
to it is a `DepotEvent`, down to the single steps of a call and of its submission, so that a list of
events is an interleaving of the calls. `Depot.stores` are the tasks an event puts into the store.
-/

namespace Sidecar

/-- A store, the agents that submit to it, and their creation calls, each with the place of its
agent. -/
structure Depot where
  store : Store
  agents : List Agent
  calls : List (Nat × CreateCall)

/-- What happens to a depot: an element of a stream arrives, a stream ends, a call or its submission
takes its next step, or an agent is asked to release what was created. -/
inductive DepotEvent where
  | deliver (call : Nat) (item : Except Cause CreateRequest)
  | finish (call : Nat)
  | advance (call : Nat)
  | work (call : Nat)
  | finalize (agent : Nat) (request : FinalizeRequest)

namespace Depot

/-- Agents that have served no call, over a store, and calls of which nothing is read. -/
def start (store : Store) (servants : List (Identity × Token × Nat)) (owners : List Nat) : Depot :=
  ⟨store, servants.map fun (identity, token, capacity) => .start identity token capacity,
    owners.map fun a => (a, .start)⟩

/-- A call and its agent, with the place of the agent. -/
def serving? (d : Depot) (i : Nat) : Option (Nat × Agent × CreateCall) :=
  match d.calls[i]? with
  | none => none
  | some (a, call) => d.agents[a]?.map fun agent => (a, agent, call)

/-- Change the inbox of a call. -/
def modifyInbox (d : Depot) (i : Nat) (change : Inbox CreateRequest → Inbox CreateRequest) :
    Depot :=
  { d with
    calls := d.calls.modify i fun (a, call) => (a, { call with inbox := change call.inbox }) }

/-- What an event makes of a depot. A step that cannot be taken leaves it as it is. -/
def apply (d : Depot) : DepotEvent → Depot
  | .deliver i item => d.modifyInbox i (·.deliver (.ofItem item))
  | .finish i => d.modifyInbox i Inbox.finish
  | .advance i =>
    match d.serving? i with
    | none => d
    | some (a, agent, call) =>
      match call.advance agent (.ofStore d.store) with
      | none => d
      | some (agent, call) =>
        { d with agents := d.agents.set a agent, calls := d.calls.set i (a, call) }
  | .work i =>
    match d.serving? i with
    | none => d
    | some (a, agent, call) =>
      match call.advanceWork agent.stopped (.ofStore d.store) with
      | none => d
      | some (backend, call) => { d with store := backend.store, calls := d.calls.set i (a, call) }
  | .finalize a request =>
    match d.agents[a]? with
    | none => d
    | some agent =>
      let (_, agent, backend) := agent.finalize (.ofStore d.store) request
      { d with store := backend.store, agents := d.agents.set a agent }

/-- The depot after some events. -/
def run (d : Depot) (es : List DepotEvent) : Depot := es.foldl apply d

/-- The tasks an event puts into the store. -/
def stores (d : Depot) : DepotEvent → List StoredTask
  | .work i =>
    match d.serving? i with
    | none => []
    | some (_, agent, call) =>
      match call.commit? agent.stopped d.store with
      | none => []
      | some submitted => submitted.tasks
  | .deliver _ _ | .finish _ | .advance _ | .finalize _ _ => []

/-- The ids whose headers the submission of a call has read, while it runs. -/
def readIds (d : Depot) (i : Nat) : List String :=
  match d.calls[i]? with
  | none => []
  | some (_, call) => call.readIds

@[simp] theorem run_nil (d : Depot) : d.run [] = d := rfl

@[simp] theorem run_append (d : Depot) (es es' : List DepotEvent) :
    d.run (es ++ es') = (d.run es).run es' := List.foldl_append

@[simp] theorem run_cons (d : Depot) (e : DepotEvent) (es : List DepotEvent) :
    d.run (e :: es) = (d.apply e).run es := rfl

/-! ## What an event does to the store -/

/-- An event releases tasks, or puts in what it stores. -/
theorem store_apply (d : Depot) (e : DepotEvent) :
    (∃ created, (d.apply e).store = (d.store.finalize created).2 ∧ d.stores e = []) ∨
      (d.apply e).store = d.store.addTasks (d.stores e) := by
  cases e with
  | deliver i item => exact .inr rfl
  | finish i => exact .inr rfl
  | advance i =>
    refine .inr ?_
    simp only [apply, stores]
    split
    · rfl
    · split <;> rfl
  | work i =>
    refine .inr ?_
    simp only [apply, stores]
    split
    · rfl
    next a agent call hserving =>
      cases hwork : call.advanceWork agent.stopped (.ofStore d.store) with
      | none =>
        rw [CreateCall.commit?_of_advanceWork_eq_none hwork]
        rfl
      | some next =>
        obtain ⟨backend, call'⟩ := next
        rcases CreateCall.advanceWork_effect hwork with
          ⟨submitted, hcommit, hstore, -⟩ | ⟨hcommit, hstore, -⟩
        · rw [hcommit]
          exact hstore
        · rw [hcommit]
          exact hstore
  | finalize a request =>
    simp only [apply, stores]
    split
    · exact .inr rfl
    next agent hagent =>
      simp only [Agent.finalize]
      split
      · exact .inr rfl
      · refine .inl ⟨agent.created, ?_, trivial⟩
        have hfinalize : (Backend.ofStore d.store).finalize agent.created =
            ((d.store.finalize agent.created).1, .ofStore (d.store.finalize agent.created).2) := rfl
        rw [hfinalize]
        cases (d.store.finalize agent.created).1 <;> rfl

/-! ## What an event does to the ids that were read -/

theorem getElem?_of_serving? {d : Depot} {i a : Nat} {agent : Agent} {call : CreateCall}
    (h : d.serving? i = some (a, agent, call)) :
    d.calls[i]? = some (a, call) ∧ d.agents[a]? = some agent := by
  unfold serving? at h
  split at h
  · cases h
  next hcall =>
    obtain ⟨agent', hagent, heq⟩ := Option.map_eq_some_iff.1 h
    cases heq
    exact ⟨hcall, hagent⟩

theorem readIds_of_serving? {d : Depot} {i a : Nat} {agent : Agent} {call : CreateCall}
    (h : d.serving? i = some (a, agent, call)) : d.readIds i = call.readIds := by
  simp [readIds, (getElem?_of_serving? h).1]

/-- What arrives does not matter to the ids that were read. -/
theorem readIds_modifyInbox (d : Depot) (i j : Nat)
    (change : Inbox CreateRequest → Inbox CreateRequest) :
    (d.modifyInbox j change).readIds i = d.readIds i := by
  simp only [readIds, modifyInbox, List.getElem?_modify]
  cases d.calls[i]? with
  | none => rfl
  | some c => by_cases hj : j = i <;> simp [hj, CreateCall.readIds]

/-- Where one call is replaced, the others keep the ids they have read. -/
theorem readIds_set {d : Depot} {j a : Nat} {call : CreateCall}
    (h : d.calls[j]? = some (a, call)) (store : Store) (agents : List Agent) (call' : CreateCall)
    (i : Nat) :
    (Depot.mk store agents (d.calls.set j (a, call'))).readIds i =
      if j = i then call'.readIds else d.readIds i := by
  have hj := (List.getElem?_eq_some_iff.1 h).1
  by_cases hji : j = i
  · subst hji
    simp [readIds, List.getElem?_set_self hj]
  · simp [readIds, List.getElem?_set_ne hji, hji]

/-- A step that reads no header leaves the ids as they are, or the submission is gone. A step that
reads one reads an id that is not taken. -/
theorem readIds_apply (d : Depot) (e : DepotEvent) (i : Nat) :
    (d.apply e).readIds i = d.readIds i ∨ (d.apply e).readIds i = [] ∨
      ∃ id, (d.apply e).readIds i = d.readIds i ++ [id] ∧ d.store.tasks.contains id = false ∧
        (d.apply e).store = d.store := by
  cases e with
  | deliver j item => exact .inl (readIds_modifyInbox d i j _)
  | finish j => exact .inl (readIds_modifyInbox d i j _)
  | advance j =>
    simp only [apply]
    split
    · exact .inl rfl
    next a agent call hs =>
      split
      · exact .inl rfl
      next agent' call' hadvance =>
        rw [readIds_set (getElem?_of_serving? hs).1]
        by_cases hji : j = i
        · subst hji
          rw [if_pos rfl, readIds_of_serving? hs]
          rcases (CreateCall.keepsWork_advance hadvance).readIds with h | h
          · exact .inl h
          · exact .inr (.inl h)
        · exact .inl (if_neg hji)
  | work j =>
    simp only [apply]
    split
    · exact .inl rfl
    next a agent call hs =>
      split
      · exact .inl rfl
      next backend call' hwork =>
        rw [readIds_set (getElem?_of_serving? hs).1]
        by_cases hji : j = i
        · subst hji
          rw [if_pos rfl, readIds_of_serving? hs]
          rcases CreateCall.advanceWork_effect hwork with ⟨_, -, -, h⟩ | ⟨-, hstore, -, h⟩
          · exact .inr (.inl (by rw [CreateCall.readIds, h]))
          · rcases h with h | h | ⟨id, h, hfree⟩
            · exact .inl h
            · exact .inr (.inl h)
            · exact .inr (.inr ⟨id, h, hfree, hstore⟩)
        · exact .inl (if_neg hji)
  | finalize a request =>
    simp only [apply]
    split <;> exact .inl rfl

/-! ## What an event does to the calls and their agents -/

theorem serving?_eq_some_iff {d : Depot} {i a : Nat} {agent : Agent} {call : CreateCall} :
    d.serving? i = some (a, agent, call) ↔
      d.calls[i]? = some (a, call) ∧ d.agents[a]? = some agent := by
  refine ⟨getElem?_of_serving?, fun ⟨hcall, hagent⟩ => ?_⟩
  simp [serving?, hcall, hagent]

/-- Where one call is replaced, the others are served as before. -/
theorem serving?_set {d : Depot} {store : Store} {i j a a' : Nat} {agent : Agent}
    {call call' : CreateCall} (hj : j < d.calls.length)
    (h : (Depot.mk store d.agents (d.calls.set j (a, call'))).serving? i =
      some (a', agent, call)) :
    (i = j ∧ a' = a ∧ call = call' ∧ d.agents[a]? = some agent) ∨
      (i ≠ j ∧ d.serving? i = some (a', agent, call)) := by
  obtain ⟨hcall, hagent⟩ := serving?_eq_some_iff.1 h
  simp only at hcall hagent
  by_cases hi : i = j
  · subst hi
    rw [List.getElem?_set_self hj] at hcall
    cases hcall
    exact .inl ⟨rfl, rfl, rfl, hagent⟩
  · rw [List.getElem?_set_ne (Ne.symm hi)] at hcall
    exact .inr ⟨hi, serving?_eq_some_iff.2 ⟨hcall, hagent⟩⟩

/-- Where an agent has other tasks to release, the calls are served by the same agents. -/
theorem serving?_setAgent {store : Store} {agents : List Agent} {calls : List (Nat × CreateCall)}
    {i a a' : Nat} {agent agent' : Agent} {created : List CreatedTask} {call : CreateCall}
    (hagent : agents[a]? = some agent)
    (h : (Depot.mk store (agents.set a { agent with created }) calls).serving? i =
      some (a', agent', call)) :
    ∃ before created', agent' = { before with created := created' } ∧
      (Depot.mk store agents calls).serving? i = some (a', before, call) := by
  obtain ⟨hcall, hagent'⟩ := serving?_eq_some_iff.1 h
  simp only at hcall hagent'
  by_cases ha : a' = a
  · subst ha
    rw [List.getElem?_set_self (List.getElem?_eq_some_iff.1 hagent).1] at hagent'
    cases hagent'
    exact ⟨agent, created, rfl, serving?_eq_some_iff.2 ⟨hcall, hagent⟩⟩
  · rw [List.getElem?_set_ne (Ne.symm ha)] at hagent'
    exact ⟨agent', agent'.created, rfl, serving?_eq_some_iff.2 ⟨hcall, hagent'⟩⟩

/-- What arrives reaches one call. -/
theorem serving?_modifyInbox {d : Depot} {i j a : Nat} {agent : Agent} {call : CreateCall}
    {change : Inbox CreateRequest → Inbox CreateRequest}
    (h : (d.modifyInbox j change).serving? i = some (a, agent, call)) :
    ∃ before, d.serving? i = some (a, agent, before) ∧
      call = if j = i then { before with inbox := change before.inbox } else before := by
  obtain ⟨hcall, hagent⟩ := serving?_eq_some_iff.1 h
  simp only [modifyInbox, List.getElem?_modify] at hcall
  cases hbefore : d.calls[i]? with
  | none =>
    rw [hbefore] at hcall
    cases hcall
  | some c =>
    rw [hbefore] at hcall
    by_cases hi : j = i
    · simp only [hi, if_true, Option.map_eq_map, Option.map_some, Option.some.injEq] at hcall ⊢
      cases hcall
      exact ⟨c.2, serving?_eq_some_iff.2 ⟨hbefore, hagent⟩, rfl⟩
    · simp only [hi, if_false, Option.map_eq_map, Option.map_some, Option.some.injEq] at hcall ⊢
      cases hcall
      exact ⟨call, serving?_eq_some_iff.2 ⟨hbefore, hagent⟩, rfl⟩

end Depot

end Sidecar
