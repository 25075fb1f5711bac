import Sidecar.Proofs.Session.Log

/-!
# What an event wakes

`Session.Attends` is the invariant of a session that has settled: a call that is not over follows
its stream and is quiet, and there is no such call after a stop. An event other than a stop wakes
at most one call (`Session.Attends.accept`), and the session then settles in one of three ways
(`Session.Wakes.settles`): nothing is stored, or the call that was woken has stored its batch, or it
has stored its result. After a stop every call that is not over ends as cancelled, and nothing is
stored (`Session.settles_stopped`).
-/

namespace Sidecar

namespace Session

/-- The session serves an agent over a store with a limit on payloads, and its calls have different
names. -/
structure Frame (s : Session) (agent : Agent) (limit : Nat) (stopped : Bool) : Prop where
  agent : ∃ created, s.agent = { agent with created, stopped }
  backend : ∃ store, s.backend = .ofStore store ∧ store.limit = limit
  names : (s.calls.map Prod.fst).Nodup

/-- A session that has settled. -/
structure Attends (s : Session) (agent : Agent) (limit : Nat)
    (streams : String → Option CallStream) (stopped : Bool) : Prop where
  frame : s.Frame agent limit stopped
  calls : ∀ c ∈ s.calls, c.2.IsOver ∨ (stopped = false ∧ c.2.Quiet ∧
    ∃ stream, streams c.1 = some stream ∧ c.2.Follows agent limit stream)

/-- A session in which an event has woken at most one call. -/
structure Wakes (s : Session) (agent : Agent) (limit : Nat)
    (streams : String → Option CallStream) : Prop where
  frame : s.Frame agent limit false
  calls : ∀ c ∈ s.calls, c.2.IsOver ∨
    ∃ stream, streams c.1 = some stream ∧ c.2.Follows agent limit stream
  single : ∃ i, ∀ (j : Nat) (c : String × Call), j ≠ i → s.calls[j]? = some c → c.2.Quiet

/-- How a session changes while it settles. -/
inductive Change (agent : Agent) (streams : String → Option CallStream) (s t : Session) : Prop where
  | nothing (hbackend : t.backend = s.backend) (hagent : t.agent = s.agent)
  | batch {name : String} {c : CreateCall} {items : List (Except Cause CreateRequest)}
      {ended : Bool} {b : Batch} (hcall : (name, .create c) ∈ s.calls)
      (hopen : ¬ (Call.create c).IsOver) (hstream : streams name = some (.create items ended))
      (hverdict : scanRequests agent.token .idle .empty items = .complete b)
      (hbackend : t.backend = .ofStore (s.backend.store.addTasks (b.stored agent.identity)))
      (hagent : t.agent = { s.agent with created := s.agent.created ++ b.created })
      (hreply : (name, .create (.ended (.ok .successful))) ∈ t.calls)
  | result {name : String} {c : ResultCall} {items : List (Except Cause ResultRequest)}
      {ended : Bool} {d : Deposit} {token : String} (hcall : (name, .result c) ∈ s.calls)
      (hopen : ¬ (Call.result c).IsOver) (hstream : streams name = some (.result items ended))
      (hverdict : scanResults agent.token .idle .empty items = .complete (d, token))
      (hbackend : t.backend =
        .ofStore (s.backend.store.addResult d.key (d.stored agent.identity)))
      (hagent : t.agent = s.agent) (hreply : (name, .result (.ended (.ok .ok))) ∈ t.calls)

variable {s t : Session} {agent : Agent} {limit : Nat} {streams : String → Option CallStream}

/-! ## Settling after an event -/

/-- What the submission of a result has found out hangs on the limit of the store alone. -/
theorem checked_of_limit_eq {c : ResultCall} {store store' : Store} {d : Deposit}
    (h : c.Checked store d) (hlimit : store.limit = store'.limit) : c.Checked store' d := by
  unfold ResultCall.Checked at h ⊢
  split at h <;> simp_all [Store.Accepts, Store.isTooLong]

/-- The names of the calls stay what they are when one of them changes. -/
theorem names_set {calls : List (String × Call)} {i : Nat} {name : String} {call : Call}
    (h : calls[i]? = some (name, call)) (call' : Call) :
    (calls.set i (name, call')).map Prod.fst = calls.map Prod.fst := by
  rw [List.map_set]
  exact set_of_getElem?_eq_some (by rw [List.getElem?_map, h]; rfl)

/-- A call that was replaced is there, and the others are as they were. -/
theorem mem_set {calls : List (String × Call)} {i : Nat} {x y : String × Call}
    (h : y ∈ calls.set i x) : y = x ∨ ∃ j, j ≠ i ∧ calls[j]? = some y := by
  obtain ⟨j, hj⟩ := List.getElem?_of_mem h
  by_cases hij : j = i
  · subst hij
    rw [List.getElem?_set_self'] at hj
    obtain ⟨-, -, rfl⟩ := Option.map_eq_some_iff.1 hj
    exact .inl rfl
  · rw [List.getElem?_set_ne (Ne.symm hij)] at hj
    exact .inr ⟨j, hij, hj⟩

namespace Wakes

/-- Where every call is quiet, settling changes nothing. -/
theorem settles_of_quiet (h : s.Wakes agent limit streams) (hsettles : s.Settles t)
    (hquiet : ∀ c ∈ s.calls, c.2.Quiet) :
    t.Attends agent limit streams false ∧ Change agent streams s t := by
  obtain ⟨created, hagent⟩ := h.frame.agent
  obtain ⟨store, hbackend, -⟩ := h.frame.backend
  cases hsettles.comes.eq_of_quiet (by rw [hagent]) hbackend hquiet
  refine ⟨⟨h.frame, ?_⟩, .nothing rfl rfl⟩
  intro c hc
  rcases h.calls c hc with hover | hfollows
  · exact .inl hover
  · exact .inr ⟨rfl, hquiet c hc, hfollows⟩

/-- Where the call that was woken has settled, the session has. -/
theorem attends_set (h : s.Wakes agent limit streams) {i : Nat} {name : String} {call call' : Call}
    (hquiet : ∀ (j : Nat) (c : String × Call), j ≠ i → s.calls[j]? = some c → c.2.Quiet)
    (hcall : s.calls[i]? = some (name, call)) (hcalls : t.calls = s.calls.set i (name, call'))
    (hagent : ∃ created, t.agent = { agent with created, stopped := false })
    (hbackend : ∃ store, t.backend = .ofStore store ∧ store.limit = limit)
    (hcall' : call'.IsOver ∨
      (call'.Quiet ∧ ∃ stream, streams name = some stream ∧ call'.Follows agent limit stream)) :
    t.Attends agent limit streams false := by
  refine ⟨⟨hagent, hbackend, ?_⟩, ?_⟩
  · rw [hcalls, names_set hcall]
    exact h.frame.names
  · intro c hc
    rw [hcalls] at hc
    rcases mem_set hc with rfl | ⟨j, hj, hc⟩
    · rcases hcall' with hover | ⟨hq, hstream⟩
      · exact .inl hover
      · exact .inr ⟨rfl, hq, hstream⟩
    · rcases h.calls c (List.mem_of_getElem? hc) with hover | hstream
      · exact .inl hover
      · exact .inr ⟨rfl, hquiet j c hj hc, hstream⟩

/-- A call of a session in which nothing moves does not move. -/
theorem not_moves_of_idle {i : Nat} {name : String} {call : Call} (hidle : ∀ u, ¬ t.Moves u)
    (hcall : t.calls[i]? = some (name, call)) (r : Agent × Backend × Call) :
    ¬ call.Moves t.agent t.backend r := by
  obtain ⟨agent', backend', call'⟩ := r
  exact fun hmove => hidle _ (.call hcall hmove)

/-- When the call that was woken is a creation call, the session goes through the stages of that
call, to where the call does not move. -/
theorem stage_create (h : s.Wakes agent limit streams) (hsettles : s.Settles t) {i : Nat}
    {name : String} {c : CreateCall}
    (hquiet : ∀ (j : Nat) (c : String × Call), j ≠ i → s.calls[j]? = some c → c.2.Quiet)
    (hcall : s.calls[i]? = some (name, .create c))
    {items : List (Except Cause CreateRequest)} {ended : Bool}
    (hfollows : (Call.create c).Follows agent limit (.create items ended)) :
    ∃ (c' : CreateCall) (created : List CreatedTask) (store : Store),
      s.agent = { agent with created, stopped := false } ∧ s.backend = .ofStore store ∧
      store.limit = limit ∧ t.calls = s.calls.set i (name, .create c') ∧
      CreateCall.Stage { agent with created, stopped := false } store False ended
        (scanRequests agent.token .idle .empty items) (t.agent, t.backend, c') ∧
      ∀ r, ¬ c'.Moves t.agent t.backend r := by
  obtain ⟨b, hpursues, hunstored⟩ := hfollows
  obtain ⟨created, hagent⟩ := h.frame.agent
  obtain ⟨store, hbackend, hlimit⟩ := h.frame.backend
  have hstage : CreateCall.Stage { agent with created, stopped := false } store False ended
      (scanRequests agent.token .idle .empty items) (s.agent, s.backend, c) := by
    rw [hagent, hbackend]
    exact .underway ⟨hpursues.serves, hpursues.stream⟩ hunstored False.elim
  obtain ⟨call', hcalls, c', rfl, hstage'⟩ := hsettles.comes.single hcall hquiet
    (motive := fun (a, b, call) => ∃ c, call = .create c ∧
      CreateCall.Stage { agent with created, stopped := false } store False ended
        (scanRequests agent.token .idle .empty items) (a, b, c))
    ⟨c, rfl, hstage⟩
    (by
      rintro a b _ _ ⟨c, rfl, hs⟩ hmove
      cases hmove with
      | create hmove => exact ⟨_, rfl, hs.moves rfl hmove⟩)
    (by
      rintro a b _ ⟨c, rfl, hs⟩
      exact hs.frame rfl)
  refine ⟨c', created, store, hagent, hbackend, hlimit, hcalls, hstage', ?_⟩
  intro r hmove
  have hi := (List.getElem?_eq_some_iff.1 hcall).1
  have hcall' : t.calls[i]? = some (name, .create c') := by rw [hcalls, List.getElem?_set_self hi]
  exact not_moves_of_idle hsettles.idle hcall' _ (.create hmove)

/-- When the call that was woken is a creation call, the session settles as that call does. -/
theorem settles_create (h : s.Wakes agent limit streams) (hsettles : s.Settles t) {i : Nat}
    {name : String} {c : CreateCall}
    (hquiet : ∀ (j : Nat) (c : String × Call), j ≠ i → s.calls[j]? = some c → c.2.Quiet)
    (hcall : s.calls[i]? = some (name, .create c)) (hopen : ¬ (Call.create c).IsOver)
    {items : List (Except Cause CreateRequest)} {ended : Bool}
    (hstream : streams name = some (.create items ended))
    (hfollows : (Call.create c).Follows agent limit (.create items ended)) :
    t.Attends agent limit streams false ∧ Change agent streams s t := by
  obtain ⟨c', created, store, hagent, hbackend, hlimit, hcalls, hstage, hidle⟩ :=
    h.stage_create hsettles hquiet hcall hfollows
  have hattends := h.attends_set hquiet hcall hcalls
  have hmem : (name, Call.create c') ∈ t.calls := by
    rw [hcalls]
    exact List.mem_set (List.getElem?_eq_some_iff.1 hcall).1 _
  rcases hstage.rests rfl hidle with ⟨result, rfl, houtcome⟩ |
    ⟨hagent', hbackend', -, hrests, hstored, b', hpursues'⟩
  · have hover := Call.isOver_ended_create result
    generalize htagent : t.agent = tagent at houtcome
    generalize htbackend : t.backend = tbackend at houtcome
    cases houtcome with
    | decided _ | refused _ _ =>
      exact ⟨hattends ⟨_, htagent⟩ ⟨_, htbackend, hlimit⟩ (.inl hover),
        .nothing (htbackend.trans hbackend.symm) (htagent.trans hagent.symm)⟩
    | stored hverdict _ =>
      refine ⟨hattends ⟨_, htagent⟩ ⟨_, htbackend, hlimit⟩ (.inl hover),
        .batch (List.mem_of_getElem? hcall) hopen hstream hverdict ?_ ?_ hmem⟩
      · rw [htbackend, hbackend]
        rfl
      · rw [htagent, hagent]
  · have hquiet' : (Call.create c').Quiet := by
      intro a st hrun' r hmove
      cases hmove with
      | create hmove => exact hrests a st hrun' _ hmove
    refine ⟨hattends ⟨_, hagent'⟩ ⟨_, hbackend', hlimit⟩
      (.inr ⟨hquiet', _, hstream, b', ?_, hstored⟩),
      .nothing (hbackend'.trans hbackend.symm) (hagent'.trans hagent.symm)⟩
    exact ⟨hpursues'.serves, hpursues'.stream⟩

/-- When the call that was woken is a result call, the session goes through the stages of that call,
to where the call does not move. -/
theorem stage_result (h : s.Wakes agent limit streams) (hsettles : s.Settles t) {i : Nat}
    {name : String} {c : ResultCall}
    (hquiet : ∀ (j : Nat) (c : String × Call), j ≠ i → s.calls[j]? = some c → c.2.Quiet)
    (hcall : s.calls[i]? = some (name, .result c))
    {items : List (Except Cause ResultRequest)} {ended : Bool}
    (hfollows : (Call.result c).Follows agent limit (.result items ended)) :
    ∃ (c' : ResultCall) (created : List CreatedTask) (store : Store),
      s.agent = { agent with created, stopped := false } ∧ s.backend = .ofStore store ∧
      store.limit = limit ∧ t.calls = s.calls.set i (name, .result c') ∧
      ResultCall.Stage { agent with created, stopped := false } store ended
        (scanResults agent.token .idle .empty items) (t.agent, t.backend, c') ∧
      ∀ r, ¬ c'.Moves t.agent t.backend r := by
  obtain ⟨d, hpursues, hunstored, hchecked⟩ := hfollows
  obtain ⟨created, hagent⟩ := h.frame.agent
  obtain ⟨store, hbackend, hlimit⟩ := h.frame.backend
  have hstage : ResultCall.Stage { agent with created, stopped := false } store ended
      (scanResults agent.token .idle .empty items) (s.agent, s.backend, c) := by
    rw [hagent, hbackend]
    exact .underway ⟨hpursues.serves, hpursues.stream⟩ hunstored
      (checked_of_limit_eq hchecked hlimit.symm)
  obtain ⟨call', hcalls, c', rfl, hstage'⟩ := hsettles.comes.single hcall hquiet
    (motive := fun (a, b, call) => ∃ c, call = .result c ∧
      ResultCall.Stage { agent with created, stopped := false } store ended
        (scanResults agent.token .idle .empty items) (a, b, c))
    ⟨c, rfl, hstage⟩
    (by
      rintro a b _ _ ⟨c, rfl, hs⟩ hmove
      cases hmove with
      | result hmove => exact ⟨_, rfl, hs.moves rfl hmove⟩)
    (by
      rintro a b _ ⟨c, rfl, hs⟩
      exact hs.frame rfl)
  refine ⟨c', created, store, hagent, hbackend, hlimit, hcalls, hstage', ?_⟩
  intro r hmove
  have hi := (List.getElem?_eq_some_iff.1 hcall).1
  have hcall' : t.calls[i]? = some (name, .result c') := by rw [hcalls, List.getElem?_set_self hi]
  exact not_moves_of_idle hsettles.idle hcall' _ (.result hmove)

/-- When the call that was woken is a result call, the session settles as that call does. -/
theorem settles_result (h : s.Wakes agent limit streams) (hsettles : s.Settles t) {i : Nat}
    {name : String} {c : ResultCall}
    (hquiet : ∀ (j : Nat) (c : String × Call), j ≠ i → s.calls[j]? = some c → c.2.Quiet)
    (hcall : s.calls[i]? = some (name, .result c)) (hopen : ¬ (Call.result c).IsOver)
    {items : List (Except Cause ResultRequest)} {ended : Bool}
    (hstream : streams name = some (.result items ended))
    (hfollows : (Call.result c).Follows agent limit (.result items ended)) :
    t.Attends agent limit streams false ∧ Change agent streams s t := by
  obtain ⟨c', created, store, hagent, hbackend, hlimit, hcalls, hstage, hidle⟩ :=
    h.stage_result hsettles hquiet hcall hfollows
  have hattends := h.attends_set hquiet hcall hcalls
  have hmem : (name, Call.result c') ∈ t.calls := by
    rw [hcalls]
    exact List.mem_set (List.getElem?_eq_some_iff.1 hcall).1 _
  rcases hstage.rests rfl hidle with ⟨result, rfl, houtcome⟩ |
    ⟨hagent', hbackend', -, hrests, hstored, d', hpursues', hchecked'⟩
  · have hover := Call.isOver_ended_result result
    generalize htagent : t.agent = tagent at houtcome
    generalize htbackend : t.backend = tbackend at houtcome
    cases houtcome with
    | decided _ | refused _ _ =>
      exact ⟨hattends ⟨_, htagent⟩ ⟨_, htbackend, hlimit⟩ (.inl hover),
        .nothing (htbackend.trans hbackend.symm) (htagent.trans hagent.symm)⟩
    | stored hverdict _ =>
      refine ⟨hattends ⟨_, htagent⟩ ⟨_, htbackend, hlimit⟩ (.inl hover),
        .result (List.mem_of_getElem? hcall) hopen hstream hverdict ?_
          (htagent.trans hagent.symm) hmem⟩
      rw [htbackend, hbackend]
      rfl
  · have hquiet' : (Call.result c').Quiet := by
      intro a st hrun' r hmove
      cases hmove with
      | result hmove => exact hrests a st hrun' _ hmove
    refine ⟨hattends ⟨_, hagent'⟩ ⟨_, hbackend', hlimit⟩
      (.inr ⟨hquiet', _, hstream, d', ?_, hstored, checked_of_limit_eq hchecked' hlimit⟩),
      .nothing (hbackend'.trans hbackend.symm) (hagent'.trans hagent.symm)⟩
    exact ⟨hpursues'.serves, hpursues'.stream⟩

/-- However a session settles after an event, it has settled, and it has changed in one of three
ways. -/
theorem settles (h : s.Wakes agent limit streams) (hsettles : s.Settles t) :
    t.Attends agent limit streams false ∧ Change agent streams s t := by
  obtain ⟨i, hquiet⟩ := h.single
  by_cases hall : ∀ c ∈ s.calls, c.2.Quiet
  · exact h.settles_of_quiet hsettles hall
  · -- The one call that is not quiet is not over.
    obtain ⟨c, hc, hnot⟩ : ∃ c ∈ s.calls, ¬ c.2.Quiet := by simpa using hall
    obtain ⟨j, hj⟩ := List.getElem?_of_mem hc
    obtain rfl : j = i := Classical.byContradiction fun hne => hnot (hquiet j c hne hj)
    have hopen : ¬ c.2.IsOver := fun hover => hnot hover.quiet
    obtain ⟨stream, hstream, hfollows⟩ := (h.calls c hc).resolve_left hopen
    obtain ⟨name, call⟩ := c
    cases call with
    | create c =>
      cases stream with
      | create items ended => exact h.settles_create hsettles hquiet hj hopen hstream hfollows
      | result items ended => cases hfollows
    | result c =>
      cases stream with
      | create items ended => cases hfollows
      | result items ended => exact h.settles_result hsettles hquiet hj hopen hstream hfollows

end Wakes

end Session

/-! ## Settling after a stop -/

namespace Call

/-- The call is not over, and its submission can end cleanly only with the call. -/
def Live (agent : Agent) : Call → Prop
  | create c => ∃ b, c.Serves agent.identity b
  | result c => ∃ d, c.Serves agent.identity d

/-- The call as a stop leaves it: one that is not over ends as cancelled. -/
def cancel : Call → Call
  | create c => if c.result? = none then create (.ended (.error .cancelled)) else create c
  | result c => if c.result? = none then result (.ended (.error .cancelled)) else result c

theorem Follows.live {agent : Agent} {limit : Nat} {call : Call} {stream : CallStream}
    (h : call.Follows agent limit stream) : call.Live agent := by
  cases call with
  | create c =>
    cases stream with
    | create items ended =>
      obtain ⟨b, hpursues, -⟩ := h
      exact ⟨b, hpursues.serves⟩
    | result items ended => cases h
  | result c =>
    cases stream with
    | create items ended => cases h
    | result items ended =>
      obtain ⟨d, hpursues, -⟩ := h
      exact ⟨d, hpursues.serves⟩

theorem Live.result?_eq_none {agent : Agent} {call : Call} (h : call.Live agent) :
    call.result? = none := by
  cases call with
  | create c =>
    obtain ⟨b, hserves⟩ := h
    simp [Call.result?, hserves.result?_eq_none]
  | result c =>
    obtain ⟨d, hserves⟩ := h
    simp [Call.result?, hserves.result?_eq_none]

theorem cancel_of_isOver {call : Call} (h : call.IsOver) : call.cancel = call := by
  cases call with
  | create c =>
    obtain ⟨⟨result, hphase⟩, -⟩ := h
    simp [cancel, CreateCall.result?, hphase]
  | result c =>
    obtain ⟨⟨result, hphase⟩, -⟩ := h
    simp [cancel, ResultCall.result?, hphase]

/-- A call that is not over has, after a stop, the outcome that it was cancelled. -/
theorem isOver_cancel {agent : Agent} {call : Call} (h : call.IsOver ∨ call.Live agent) :
    call.cancel.IsOver := by
  rcases h with hover | hlive
  · rwa [cancel_of_isOver hover]
  · cases call with
    | create c =>
      obtain ⟨b, hserves⟩ := hlive
      rw [cancel, if_pos hserves.result?_eq_none]
      exact isOver_ended_create _
    | result c =>
      obtain ⟨d, hserves⟩ := hlive
      rw [cancel, if_pos hserves.result?_eq_none]
      exact isOver_ended_result _

/-- After a stop a call that is not over ends as cancelled, or goes on without storing anything. -/
theorem Live.moves_stopped {agent : Agent} {store : Store} {call : Call} (h : call.Live agent)
    (hstop : agent.stopped = true) {r : Agent × Backend × Call}
    (hmove : call.Moves agent (.ofStore store) r) :
    r = (agent, .ofStore store, call.cancel) ∨
      ∃ call', r = (agent, .ofStore store, call') ∧ call'.cancel = call.cancel ∧
        call'.Live agent := by
  cases hmove with
  | @create c c' a b hmove =>
    obtain ⟨b, hserves⟩ := h
    rcases hserves.moves_stopped hstop hmove with heq | ⟨c', heq, hserves'⟩
    · cases heq
      exact .inl (by rw [cancel, if_pos hserves.result?_eq_none])
    · cases heq
      refine .inr ⟨_, rfl, ?_, b, hserves'⟩
      rw [cancel, cancel, if_pos hserves.result?_eq_none, if_pos hserves'.result?_eq_none]
  | @result c c' a b hmove =>
    obtain ⟨d, hserves⟩ := h
    rcases hserves.moves_stopped hstop hmove with heq | ⟨c', heq, hserves'⟩
    · cases heq
      exact .inl (by rw [cancel, if_pos hserves.result?_eq_none])
    · cases heq
      refine .inr ⟨_, rfl, ?_, d, hserves'⟩
      rw [cancel, cancel, if_pos hserves.result?_eq_none, if_pos hserves'.result?_eq_none]

/-- After a stop a call that is not over can always move. -/
theorem Live.exists_moves_stopped {agent : Agent} {call : Call} (h : call.Live agent)
    (hstop : agent.stopped = true) (backend : Backend) : ∃ r, call.Moves agent backend r := by
  cases call with
  | create c =>
    obtain ⟨b, hserves⟩ := h
    exact ⟨_, .create (.call (CreateCall.advance_stopped hserves.result?_eq_none hstop backend))⟩
  | result c =>
    obtain ⟨d, hserves⟩ := h
    exact ⟨_, .result (.call (ResultCall.advance_stopped hserves.result?_eq_none hstop backend))⟩

end Call

namespace Session

variable {s t : Session}

/-- A session on its way after a stop: nothing is stored, and the calls that are not over are those
that will end as cancelled. -/
structure WindsDown (s t : Session) : Prop where
  agent : t.agent = s.agent
  backend : t.backend = s.backend
  calls : t.calls.map (fun c => (c.1, c.2.cancel)) = s.calls.map (fun c => (c.1, c.2.cancel))
  live : ∀ c ∈ t.calls, c.2.IsOver ∨ c.2.Live s.agent

/-- Whatever moves after a stop, the session stays on its way. -/
theorem WindsDown.moves {store : Store} (h : s.WindsDown t) (hstop : s.agent.stopped = true)
    (hbackend : s.backend = .ofStore store) {u : Session} (hmove : t.Moves u) : s.WindsDown u := by
  cases hmove with
  | @call i name call call' a b hcall hmove =>
    have hmem := List.mem_of_getElem? hcall
    rw [h.agent, h.backend, hbackend] at hmove
    have hlive := (h.live _ hmem).resolve_left fun hover => hover.not_moves _ _ _ hmove
    have hnext : a = s.agent ∧ b = s.backend ∧ call'.cancel = call.cancel ∧
        (call'.IsOver ∨ call'.Live s.agent) := by
      rcases hlive.moves_stopped hstop hmove with heq | ⟨call'', heq, hcancel, hlive'⟩
      · cases heq
        have hover := Call.isOver_cancel (.inr hlive)
        exact ⟨rfl, hbackend.symm, Call.cancel_of_isOver hover, .inl hover⟩
      · cases heq
        exact ⟨rfl, hbackend.symm, hcancel, .inr hlive'⟩
    obtain ⟨rfl, rfl, hcancel, hstate⟩ := hnext
    refine ⟨rfl, rfl, ?_, ?_⟩
    · rw [← h.calls, List.map_set]
      simp only [hcancel]
      exact set_of_getElem?_eq_some (by rw [List.getElem?_map, hcall]; rfl)
    · intro c hc
      rcases mem_set hc with rfl | ⟨j, -, hj⟩
      · exact hstate
      · exact h.live c (List.mem_of_getElem? hj)

/-- After a stop nothing is stored, and every call that is not over ends as cancelled. -/
theorem settles_stopped {store : Store} (hstop : s.agent.stopped = true)
    (hbackend : s.backend = .ofStore store)
    (hcalls : ∀ c ∈ s.calls, c.2.IsOver ∨ c.2.Live s.agent) (hsettles : s.Settles t) :
    t = { s with calls := s.calls.map fun c => (c.1, c.2.cancel) } := by
  obtain ⟨hagent, hbackend', hsame, hall⟩ := hsettles.comes.induct (motive := s.WindsDown)
    ⟨rfl, rfl, rfl, hcalls⟩ fun _ _ h hmove => h.moves hstop hbackend hmove
  have hover : ∀ c ∈ t.calls, c.2.IsOver := by
    intro c hc
    refine (hall c hc).resolve_right ?_
    intro hlive
    obtain ⟨i, hi⟩ := List.getElem?_of_mem hc
    obtain ⟨⟨a, b, call'⟩, hmove⟩ := hlive.exists_moves_stopped hstop t.backend
    rw [← hagent] at hmove
    exact hsettles.idle _ (.call hi hmove)
  have hid : t.calls.map (fun c => (c.1, c.2.cancel)) = t.calls := by
    rw [List.map_congr_left fun c hc => by rw [Call.cancel_of_isOver (hover c hc)]]
    exact List.map_id' _
  obtain ⟨agent', backend', calls'⟩ := t
  simp only at hagent hbackend' hid hsame
  rw [hid] at hsame
  rw [hagent, hbackend', hsame]

end Session

end Sidecar
