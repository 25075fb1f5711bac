import Sidecar.Proofs.Creation.Sequential
import Sidecar.Proofs.Ingestion.Turn
import Sidecar.Proofs.Session.Progress

/-!
# Schedules of a session

The calls of a session and their submissions move in any order (`Session.Moves`). A session settles
in whatever state it can reach by moves and where nothing moves any more (`Session.Settles`); the
one that `Session.run` comes to is one of them (`Session.settles_run`). Every move leaves less to
do, so that no schedule goes on for ever (`Session.exists_not_moves`).

Where all calls but one are quiet, the session goes through what that one call goes through
(`Session.Comes.single`).
-/

namespace Sidecar

/-- A call of either kind, or its submission, takes its next step. -/
inductive Call.Moves (agent : Agent) (backend : Backend) :
    Call → Agent × Backend × Call → Prop where
  | create {c c' : CreateCall} {agent' : Agent} {backend' : Backend}
      (h : c.Moves agent backend (agent', backend', c')) :
      Moves agent backend (.create c) (agent', backend', .create c')
  | result {c c' : ResultCall} {agent' : Agent} {backend' : Backend}
      (h : c.Moves agent backend (agent', backend', c')) :
      Moves agent backend (.result c) (agent', backend', .result c')

/-- A call that does not move, whatever is stored and whatever was created, until the agent is
stopped. -/
def Call.Quiet (call : Call) : Prop :=
  ∀ (agent : Agent) (store : Store), agent.stopped = false →
    ∀ r, ¬ call.Moves agent (.ofStore store) r

/-- A call that may take a step makes a move. -/
theorem Call.moves_of_step {call call' : Call} {agent agent' : Agent} {backend backend' : Backend}
    (h : call.step agent backend = some (agent', backend', call')) :
    call.Moves agent backend (agent', backend', call') := by
  cases call with
  | create c =>
    obtain ⟨c', hstep, rfl⟩ := step_create_eq_some h
    exact .create (CreateCall.moves_of_step hstep)
  | result c =>
    obtain ⟨c', hstep, rfl⟩ := step_result_eq_some h
    exact .result (ResultCall.moves_of_step hstep)

/-- A call that takes no step makes no move. -/
theorem Call.not_moves_of_step_eq_none {call : Call} {agent : Agent} {backend : Backend}
    (h : call.step agent backend = none) (r : Agent × Backend × Call) :
    ¬ call.Moves agent backend r := by
  intro hmove
  cases hmove with
  | create hmove =>
    rw [step, Option.map_eq_none_iff] at h
    exact CreateCall.not_moves_of_step_eq_none h _ hmove
  | result hmove =>
    rw [step, Option.map_eq_none_iff] at h
    exact ResultCall.not_moves_of_step_eq_none h _ hmove

/-- A move leaves less to do. -/
theorem Call.effort_lt_of_moves {call : Call} {agent : Agent} {backend : Backend}
    {r : Agent × Backend × Call} (h : call.Moves agent backend r) :
    r.2.2.effort < call.effort := by
  cases h with
  | create hmove => exact CreateCall.effort_lt_of_moves hmove
  | result hmove =>
    cases hmove with
    | call hadvance => exact ResultCall.effort_lt_of_advance hadvance
    | work hwork => exact ResultCall.effort_lt_of_advanceWork hwork

namespace Session

/-- One of the calls makes a move. -/
inductive Moves (s : Session) : Session → Prop where
  | call {i : Nat} {name : String} {call call' : Call} {agent : Agent} {backend : Backend}
      (hcall : s.calls[i]? = some (name, call))
      (hmove : call.Moves s.agent s.backend (agent, backend, call')) :
      Moves s ⟨agent, backend, s.calls.set i (name, call')⟩

/-- Some moves lead from one session to another. -/
inductive Comes (s : Session) : Session → Prop where
  | refl : Comes s s
  | tail {t u : Session} (h : Comes s t) (hmove : t.Moves u) : Comes s u

/-- Some moves lead from one session to another, and there nothing moves. -/
structure Settles (s t : Session) : Prop where
  comes : s.Comes t
  idle : ∀ u, ¬ t.Moves u

/-- A step of a session is a move. -/
theorem moves_of_step {s t : Session} (h : s.step = some t) : s.Moves t := by
  obtain ⟨before, name, call, call', after, hcalls, hstep, hcalls'⟩ := step_eq_some h
  have hset : t.calls = s.calls.set before.length (name, call') := by
    rw [hcalls, hcalls']
    simp
  have hmoves : s.Moves ⟨t.agent, t.backend, s.calls.set before.length (name, call')⟩ :=
    .call (by simp [hcalls]) (Call.moves_of_step hstep)
  rwa [← hset] at hmoves

/-- Running settles a session. -/
theorem settles_run (s : Session) : s.Settles s.run := by
  refine ⟨run_induction (fun t u hstep h => .tail h (moves_of_step hstep)) .refl, ?_⟩
  intro u hmove
  have hidle := step_eq_none_iff.1 s.step_run
  cases hmove with
  | call hcall hmove =>
    exact Call.not_moves_of_step_eq_none (hidle _ (List.mem_of_getElem? hcall)) _ hmove

/-- A call with less to do leaves its session with less to do. -/
theorem effortOf_set_lt {calls : List (String × Call)} {i : Nat} {c c' : String × Call}
    (hi : calls[i]? = some c) (hlt : c'.2.effort < c.2.effort) :
    effortOf (calls.set i c') < effortOf calls := by
  induction calls generalizing i with
  | nil => cases hi
  | cons first rest ih =>
    cases i with
    | zero =>
      cases hi
      simpa using hlt
    | succ i => simpa using ih hi

/-- Every move leaves less to do. -/
theorem effortOf_lt_of_moves {s t : Session} (hmove : s.Moves t) :
    effortOf t.calls < effortOf s.calls := by
  cases hmove with
  | call hcall hmove => exact effortOf_set_lt hcall (Call.effort_lt_of_moves hmove)

/-- No schedule goes on for ever. -/
theorem exists_not_moves (schedule : Nat → Session) :
    ∃ n, ¬ (schedule n).Moves (schedule (n + 1)) := by
  refine Classical.byContradiction fun hnone => ?_
  have hmoves : ∀ n, (schedule n).Moves (schedule (n + 1)) := fun n =>
    Classical.byContradiction fun h => hnone ⟨n, h⟩
  have hbound : ∀ n, effortOf (schedule n).calls + n ≤ effortOf (schedule 0).calls := by
    intro n
    induction n with
    | zero => exact Nat.le_refl _
    | succ n ih =>
      have := effortOf_lt_of_moves (hmoves n)
      omega
  have := hbound (effortOf (schedule 0).calls + 1)
  omega

/-- What every move keeps holds wherever a session comes to. -/
theorem Comes.induct {s t : Session} {motive : Session → Prop} (hcomes : s.Comes t)
    (h : motive s) (hmove : ∀ t u, motive t → t.Moves u → motive u) : motive t := by
  induction hcomes with
  | refl => exact h
  | tail _ hm ih => exact hmove _ _ ih hm

/-- Where all calls are quiet, nothing changes. -/
theorem Comes.eq_of_quiet {s t : Session} (hcomes : s.Comes t) {store : Store}
    (hrun : s.agent.stopped = false) (hbackend : s.backend = .ofStore store)
    (hquiet : ∀ c ∈ s.calls, c.2.Quiet) : t = s := by
  refine hcomes.induct (motive := fun t => t = s) rfl ?_
  intro t u ht hmove
  subst ht
  cases hmove with
  | call hcall hmove =>
    rw [hbackend] at hmove
    exact absurd hmove (hquiet _ (List.mem_of_getElem? hcall) _ store hrun _)

/-- Putting an element where it is changes nothing. -/
theorem set_of_getElem?_eq_some {α : Type} {l : List α} {i : Nat} {x : α} (h : l[i]? = some x) :
    l.set i x = l := by
  obtain ⟨hi, rfl⟩ := List.getElem?_eq_some_iff.1 h
  exact List.set_getElem_self hi

/-- Where all calls but one are quiet, the session goes through what that call goes through. -/
theorem Comes.single {s t : Session} {i : Nat} {name : String} {call : Call}
    {motive : Agent × Backend × Call → Prop} (hcomes : s.Comes t)
    (hcall : s.calls[i]? = some (name, call))
    (hquiet : ∀ j c, j ≠ i → s.calls[j]? = some c → c.2.Quiet)
    (hstart : motive (s.agent, s.backend, call))
    (hmove : ∀ agent backend call r, motive (agent, backend, call) →
      call.Moves agent backend r → motive r)
    (hstore : ∀ agent backend call, motive (agent, backend, call) →
      agent.stopped = false ∧ ∃ store, backend = .ofStore store) :
    ∃ call', t.calls = s.calls.set i (name, call') ∧ motive (t.agent, t.backend, call') := by
  have hi := (List.getElem?_eq_some_iff.1 hcall).1
  refine hcomes.induct
    (motive := fun t => ∃ call', t.calls = s.calls.set i (name, call') ∧
      motive (t.agent, t.backend, call'))
    ⟨call, (set_of_getElem?_eq_some hcall).symm, hstart⟩ ?_
  rintro t u ⟨call', hcalls, hreached⟩ hu
  cases hu with
  | @call j other before after agent backend hbefore hstep =>
    rw [hcalls] at hbefore ⊢
    by_cases hj : j = i
    · subst hj
      rw [List.getElem?_set_self hi, Option.some.injEq, Prod.mk.injEq] at hbefore
      obtain ⟨rfl, rfl⟩ := hbefore
      exact ⟨after, List.set_set _, hmove _ _ _ _ hreached hstep⟩
    · rw [List.getElem?_set_ne (Ne.symm hj)] at hbefore
      obtain ⟨hrun, store, hbackend⟩ := hstore _ _ _ hreached
      rw [hbackend] at hstep
      exact absurd hstep (hquiet j _ hj hbefore _ store hrun _)

end Session

end Sidecar
