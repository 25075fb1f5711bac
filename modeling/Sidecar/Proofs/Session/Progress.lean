import Sidecar.Agent.Session
import Sidecar.Proofs.Creation.Effort
import Sidecar.Proofs.Ingestion.Effort

/-!
# Sessions come to rest

A step of a session is a step of one of its calls (`Session.step_eq_some`), and a session takes no
step exactly if none of its calls does (`Session.step_eq_none_iff`). Every step leaves less to do,
so that what is budgeted for a session is enough for it: `Session.run` comes to where nothing can
move (`Session.step_run`).
-/

namespace Sidecar

namespace Call

/-- What is left to do of a call of either kind. -/
def effort : Call → Nat
  | create c => c.effort
  | result c => c.effort

theorem step_create_eq_some {c : CreateCall} {agent agent' : Agent} {backend backend' : Backend}
    {call' : Call} (h : (create c).step agent backend = some (agent', backend', call')) :
    ∃ c', c.step agent backend = some (agent', backend', c') ∧ call' = create c' := by
  simp only [step, Option.map_eq_some_iff] at h
  obtain ⟨⟨a, b, c'⟩, hstep, heq⟩ := h
  cases heq
  exact ⟨c', hstep, rfl⟩

theorem step_result_eq_some {c : ResultCall} {agent agent' : Agent} {backend backend' : Backend}
    {call' : Call} (h : (result c).step agent backend = some (agent', backend', call')) :
    ∃ c', c.step agent backend = some (agent', backend', c') ∧ call' = result c' := by
  simp only [step, Option.map_eq_some_iff] at h
  obtain ⟨⟨a, b, c'⟩, hstep, heq⟩ := h
  cases heq
  exact ⟨c', hstep, rfl⟩

/-- A step leaves less to do. -/
theorem effort_lt_of_step {call call' : Call} {agent agent' : Agent} {backend backend' : Backend}
    (h : call.step agent backend = some (agent', backend', call')) :
    call'.effort < call.effort := by
  cases call with
  | create c =>
    obtain ⟨c', hstep, rfl⟩ := step_create_eq_some h
    exact CreateCall.effort_lt_of_step hstep
  | result c =>
    obtain ⟨c', hstep, rfl⟩ := step_result_eq_some h
    exact ResultCall.effort_lt_of_step hstep

/-- There is never more to do than what is budgeted for. -/
theorem effort_le_budget (call : Call) : call.effort ≤ call.budget := by
  cases call with
  | create c => exact c.effort_le_budget
  | result c => exact c.effort_le_budget

end Call

namespace Session

/-- What is left to do of a list of calls. -/
def effortOf (calls : List (String × Call)) : Nat := calls.foldr (fun c n => c.2.effort + n) 0

@[simp] theorem effortOf_cons (c : String × Call) (calls : List (String × Call)) :
    effortOf (c :: calls) = c.2.effort + effortOf calls := rfl

/-- A step is a step of the first call that can take one. -/
theorem stepCalls_eq_some {agent agent' : Agent} {backend backend' : Backend}
    {calls calls' : List (String × Call)}
    (h : stepCalls agent backend calls = some (agent', backend', calls')) :
    ∃ before name call call' after, calls = before ++ (name, call) :: after ∧
      call.step agent backend = some (agent', backend', call') ∧
      calls' = before ++ (name, call') :: after := by
  induction calls generalizing calls' with
  | nil => cases h
  | cons c rest ih =>
    obtain ⟨name, call⟩ := c
    simp only [stepCalls] at h
    split at h
    next hstep =>
      cases h
      exact ⟨[], name, call, _, rest, rfl, hstep, rfl⟩
    next =>
      simp only [Option.map_eq_some_iff] at h
      obtain ⟨⟨a, b, rest'⟩, hrest, heq⟩ := h
      cases heq
      obtain ⟨before, name', call', call'', after, rfl, hstep, rfl⟩ := ih hrest
      exact ⟨(name, call) :: before, name', call', call'', after, rfl, hstep, rfl⟩

/-- Nothing steps exactly if no call does. -/
theorem stepCalls_eq_none_iff {agent : Agent} {backend : Backend} {calls : List (String × Call)} :
    stepCalls agent backend calls = none ↔ ∀ c ∈ calls, c.2.step agent backend = none := by
  induction calls with
  | nil => simp [stepCalls]
  | cons c rest ih =>
    obtain ⟨name, call⟩ := c
    simp only [stepCalls, List.forall_mem_cons]
    cases hstep : call.step agent backend with
    | some r => simp
    | none => simp [ih]

/-- A step of a session is a step of one of its calls. -/
theorem step_eq_some {s s' : Session} (h : s.step = some s') :
    ∃ before name call call' after, s.calls = before ++ (name, call) :: after ∧
      call.step s.agent s.backend = some (s'.agent, s'.backend, call') ∧
      s'.calls = before ++ (name, call') :: after := by
  simp only [step, Option.map_eq_some_iff] at h
  obtain ⟨⟨agent, backend, calls⟩, hstep, rfl⟩ := h
  exact stepCalls_eq_some hstep

/-- A session takes no step exactly if no call does. -/
theorem step_eq_none_iff {s : Session} :
    s.step = none ↔ ∀ c ∈ s.calls, c.2.step s.agent s.backend = none := by
  rw [step, Option.map_eq_none_iff, stepCalls_eq_none_iff]

/-- A step leaves less to do. -/
theorem effortOf_lt_of_step {s s' : Session} (h : s.step = some s') :
    effortOf s'.calls < effortOf s.calls := by
  obtain ⟨before, name, call, call', after, hcalls, hstep, hcalls'⟩ := step_eq_some h
  have hlt := Call.effort_lt_of_step hstep
  rw [hcalls, hcalls']
  clear hcalls hcalls'
  induction before with
  | nil => simpa using hlt
  | cons c before ih => simpa using ih

/-- There is never more to do than what is budgeted for. -/
theorem effortOf_le_budget (s : Session) : effortOf s.calls ≤ s.budget := by
  unfold budget
  induction s.calls with
  | nil => exact Nat.le_refl _
  | cons c calls ih =>
    have := c.2.effort_le_budget
    rw [effortOf_cons, List.foldr_cons]
    omega

/-- A session that has run takes no further step. -/
theorem step_run (s : Session) : s.run.step = none :=
  step_settle_eq_none step (fun s => effortOf s.calls) (fun _ _ h => effortOf_lt_of_step h) _
    s.effortOf_le_budget

/-- What every step keeps is kept while a session runs. -/
theorem run_induction {motive : Session → Prop}
    (hstep : ∀ s s', s.step = some s' → motive s → motive s') {s : Session} (h : motive s) :
    motive s.run :=
  settle_induction hstep s.budget h

end Session

end Sidecar
