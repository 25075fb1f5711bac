import Sidecar.Proofs.Session.Commit
import Sidecar.Proofs.Session.Faring
import Sidecar.Proofs.Session.Weaving

/-!
# Calls at every moment of a run

`Session.Attends` speaks of sessions that have settled. While the events of a run come in and its
calls move as they like, a call may also have stored what it was asked to store and not have
answered yet. `Session.Heeds` is the invariant that holds at every moment until the agent is
stopped: each call is over, or makes of what has arrived on its stream what that comes to, whatever
the other calls store. Events keep it (`Session.Heeds.accept`), and so do moves
(`Session.Heeds.moves`).

`Call.Turn` says what the move of one call means for the tasks: nothing, or its batch is stored, or
a call that has stored its batch answers and counts the batch as created.
-/

namespace Sidecar

namespace Call

/-- The call is over, or it makes of what has arrived on its stream what that comes to. -/
def Heeds (agent : Agent) : Call → CallStream → Prop
  | create c, .create items ended =>
    (create c).IsOver ∨ ∃ b, c.Pursues agent ended (scanRequests agent.token .idle .empty items) b
  | result c, .result items ended =>
    (result c).IsOver ∨ ∃ d, c.Pursues agent ended (scanResults agent.token .idle .empty items) d
  | create _, .result _ _ | result _, .create _ _ => False

/-- The tasks a call has stored and not answered for yet. -/
def held : Call → List CreatedTask
  | create c =>
    match c.work with
    | .finished (.ok created) => created
    | .absent | .running _ | .finished (.error _) | .broken => []
  | result _ => []

/-- What a move of a call comes to for the tasks of the store, the tasks that count as created, and
those that are held in between. -/
inductive Turn (agent : Agent) (store : Store) (stream : CallStream) (call : Call) :
    Agent × Backend × Call → Prop where
  | keeps {store' : Store} {call' : Call} (h : call'.Heeds agent stream)
      (htasks : store'.tasks = store.tasks) (hbefore : call.held = []) (hafter : call'.held = [])
      (hresult : ∀ echo, call'.result? ≠ some (.create (.ok ⟨echo, .successful⟩))) :
      Turn agent store stream call (agent, .ofStore store', call')
  | stores {b : Batch} {call' : Call} (h : call'.Heeds agent stream) (hbefore : call.held = [])
      (hafter : call'.held = b.created) (hresult : call'.result? = none) :
      Turn agent store stream call
        (agent, .ofStore (store.addTasks (b.stored agent.identity)), call')
  | replies {items : List (Except Cause CreateRequest)} {ended : Bool} {b : Batch}
      (hstream : stream = .create items ended)
      (hverdict : scanRequests agent.token .idle .empty items = .complete b)
      (hbefore : call.held = b.created) :
      Turn agent store stream call
        ({ agent with created := agent.created ++ b.created }, .ofStore store,
          create (.ended (.ok .successful)))

variable {agent : Agent} {store : Store} {call : Call} {stream : CallStream}

/-- A call that has stored nothing holds nothing. -/
theorem held_of_not_hasStored {c : CreateCall} (h : ¬ c.HasStored) : (create c).held = [] := by
  simp only [held]
  split
  next created hwork => exact absurd ⟨created, hwork⟩ h
  all_goals rfl

/-- A call that has stored its batch holds it. -/
theorem held_of_hasStored {c : CreateCall} {identity : Identity} {b : Batch}
    (hserves : c.Serves identity b) (h : c.HasStored) : (create c).held = b.created := by
  obtain ⟨created, hwork⟩ := h
  have hsubmits := hserves.work
  simp only [CreateCall.Submits, hwork] at hsubmits
  simp only [held, hwork]
  exact hsubmits.2

theorem IsOver.held_eq_nil (h : call.IsOver) : call.held = [] := by
  cases call with
  | result c => rfl
  | create c => simp [held, h.2]

/-! ## Events -/

/-- A call that begins has nothing of its stream. -/
theorem heeds_create_start (agent : Agent) : (create .start).Heeds agent (.create [] false) :=
  .inr ⟨.empty, CreateCall.pursues_start agent [] false⟩

/-- A call that begins has nothing of its stream. -/
theorem heeds_result_start (agent : Agent) : (Call.result .start).Heeds agent (.result [] false) :=
  .inr ⟨.empty, ResultCall.serves_start agent.identity _, [], rfl, rfl⟩

/-- Which tasks count as created does not matter to a call. -/
theorem Heeds.setCreated (h : call.Heeds agent stream) (created : List CreatedTask) :
    call.Heeds { agent with created } stream := by
  unfold Heeds at h ⊢
  split at h
  next => exact h.imp_right fun ⟨b, hpursues⟩ => ⟨b, hpursues.serves, hpursues.stream⟩
  next => exact h.imp_right fun ⟨d, hpursues⟩ => ⟨d, hpursues.serves, hpursues.stream⟩
  next => cases h
  next => cases h

/-- More of a creation stream arrives, or it ends. -/
theorem Heeds.arriveCreate {c : CreateCall} {items : List (Except Cause CreateRequest)}
    {ended : Bool} (h : (create c).Heeds agent (.create items ended))
    (more : List (Except Cause CreateRequest)) (ended' : Bool) {inbox : Inbox CreateRequest}
    (hinbox : c.inbox.ended = ended → inbox = ⟨c.inbox.arrivals ++ more.map .ofItem, ended'⟩) :
    (create { c with inbox }).Heeds agent (.create (items ++ more) ended') := by
  rcases h with hover | ⟨b, hpursues⟩
  · exact .inl hover
  · obtain ⟨rest, hrest, -⟩ := hpursues.stream
    rw [hinbox (by rw [hrest])]
    exact .inr ⟨b, hpursues.arrive more ended'⟩

/-- More of a result stream arrives, or it ends. -/
theorem Heeds.arriveResult {c : ResultCall} {items : List (Except Cause ResultRequest)}
    {ended : Bool} (h : (Call.result c).Heeds agent (.result items ended))
    (more : List (Except Cause ResultRequest)) (ended' : Bool) {inbox : Inbox ResultRequest}
    (hinbox : c.inbox.ended = ended → inbox = ⟨c.inbox.arrivals ++ more.map .ofItem, ended'⟩) :
    (Call.result { c with inbox }).Heeds agent (.result (items ++ more) ended') := by
  rcases h with hover | ⟨d, hpursues⟩
  · exact .inl hover
  · obtain ⟨rest, hrest, -⟩ := hpursues.stream
    rw [hinbox (by rw [hrest])]
    exact .inr ⟨d, hpursues.arrive more ended'⟩

/-! ## Moves -/

/-- A creation call that is not over takes one of the turns. -/
theorem turn_create (hrun : agent.stopped = false) {c : CreateCall}
    {items : List (Except Cause CreateRequest)} {ended : Bool} {b : Batch}
    (h : c.Pursues agent ended (scanRequests agent.token .idle .empty items) b)
    {r : Agent × Backend × CreateCall} (hmove : c.Moves agent (.ofStore store) r) :
    Turn agent store (.create items ended) (create c) (r.1, r.2.1, create r.2.2) := by
  have hturn := h.turn hrun hmove
  generalize hverdict : scanRequests agent.token .idle .empty items = verdict at hturn
  cases hturn with
  | goesOn hnext hbefore hafter _ =>
    rw [← hverdict] at hnext
    refine .keeps (.inr ⟨_, hnext⟩) rfl (held_of_not_hasStored hbefore)
      (held_of_not_hasStored hafter) ?_
    simp [result?, hnext.serves.result?_eq_none]
  | @breaksOff result hdecides hbefore =>
    refine .keeps (.inl (isOver_ended_create _)) rfl (held_of_not_hasStored hbefore) rfl ?_
    intro echo heq
    obtain rfl : result = .ok ⟨echo, .successful⟩ := by
      simpa [result?, CreateCall.result?, CreateCall.ended] using heq
    cases hdecides
    exact absurd hverdict (scanRequests_ne_successful _ _ _ _)
  | stores hnext _ hbefore hafter _ =>
    rw [← hverdict] at hnext
    refine .stores (.inr ⟨_, hnext⟩) (held_of_not_hasStored hbefore)
      (held_of_hasStored hnext.serves hafter) ?_
    simp [result?, hnext.serves.result?_eq_none]
  | replies hcomplete hbefore =>
    exact .replies rfl (hverdict.trans hcomplete) (held_of_hasStored h.serves hbefore)
  | refuses _ hbefore _ =>
    refine .keeps (.inl (isOver_ended_create _)) rfl (held_of_not_hasStored hbefore) rfl ?_
    simp [result?, CreateCall.result?, CreateCall.ended, CreateReply.nonSuccessful]

/-- A result call that is not over leaves the tasks alone. -/
theorem turn_result (hrun : agent.stopped = false) {c : ResultCall}
    {items : List (Except Cause ResultRequest)} {ended : Bool} {d : Deposit}
    (h : c.Pursues agent ended (scanResults agent.token .idle .empty items) d)
    {r : Agent × Backend × ResultCall} (hmove : c.Moves agent (.ofStore store) r) :
    Turn agent store (.result items ended) (Call.result c) (r.1, r.2.1, Call.result r.2.2) := by
  have hne : ∀ (c : ResultCall) (echo : String),
      (Call.result c).result? ≠ some (.create (.ok ⟨echo, .successful⟩)) := by
    intro c echo
    simp [result?]
  cases h.turn hrun hmove with
  | goesOn hnext _ _ _ => exact .keeps (.inr ⟨_, hnext⟩) rfl rfl rfl (hne _)
  | stores hnext _ _ _ _ => exact .keeps (.inr ⟨_, hnext⟩) rfl rfl rfl (hne _)
  | breaksOff _ _ | replies _ _ | refuses _ _ _ =>
    exact .keeps (.inl (isOver_ended_result _)) rfl rfl rfl (hne _)

/-- Whatever a call does while the agent is not stopped, it takes one of the turns. -/
theorem Heeds.turn (h : call.Heeds agent stream) (hrun : agent.stopped = false)
    {r : Agent × Backend × Call} (hmove : call.Moves agent (.ofStore store) r) :
    Turn agent store stream call r := by
  cases hmove with
  | create hmove =>
    cases stream with
    | result items ended => cases h
    | create items ended =>
      rcases h with hover | ⟨b, hpursues⟩
      · exact absurd (.create hmove) (hover.not_moves _ _ _)
      · exact turn_create hrun hpursues hmove
  | result hmove =>
    cases stream with
    | create items ended => cases h
    | result items ended =>
      rcases h with hover | ⟨d, hpursues⟩
      · exact absurd (.result hmove) (hover.not_moves _ _ _)
      · exact turn_result hrun hpursues hmove

end Call

namespace Call

variable {agent : Agent} {call : Call} {stream : CallStream}

/-- A call that heeds its stream is over, or it has no outcome and serves on. -/
theorem Heeds.isOver_or_live (h : call.Heeds agent stream) : call.IsOver ∨ call.Live agent := by
  unfold Heeds at h
  split at h
  next => exact h.imp_right fun ⟨b, hpursues⟩ => ⟨b, hpursues.serves⟩
  next => exact h.imp_right fun ⟨d, hpursues⟩ => ⟨d, hpursues.serves⟩
  next => cases h
  next => cases h

/-- A call that moves has no outcome yet. -/
theorem Heeds.result?_eq_none_of_moves (h : call.Heeds agent stream) {agent' : Agent}
    {backend : Backend} {r : Agent × Backend × Call} (hmove : call.Moves agent' backend r) :
    call.result? = none := by
  rcases h.isOver_or_live with hover | hlive
  · exact absurd hmove (hover.not_moves _ _ _)
  · exact hlive.result?_eq_none

end Call

/-! ## Sessions -/

namespace Session

/-- Every stream has its call, and every call heeds its stream. The session serves the agent over
some store, whatever counts as created by now. -/
structure Heeds (s : Session) (agent : Agent) (streams : String → Option CallStream) : Prop where
  opened : ∀ name stream, streams name = some stream → ∃ call, (name, call) ∈ s.calls
  calls : ∀ c ∈ s.calls, ∃ stream, streams c.1 = some stream ∧ c.2.Heeds agent stream
  names : (s.calls.map Prod.fst).Nodup
  agent : ∃ created, s.agent = { agent with created }
  backend : ∃ store, s.backend = .ofStore store

variable {s t : Session} {agent : Agent} {streams streams' : String → Option CallStream}
  {name : String}

namespace Heeds

/-- Something arrives for a call. -/
theorem modifyCall (h : s.Heeds agent streams) {change : Call → Call}
    {f : CallStream → CallStream}
    (hheeds : ∀ call stream, call.Heeds agent stream → (change call).Heeds agent (f stream))
    (hstreams : ∀ n, streams' n = if name = n then (streams n).map f else streams n) :
    (s.modifyCall name change).Heeds agent streams' := by
  refine ⟨?_, ?_, (names_modifyCall name change).symm ▸ h.names, h.agent, h.backend⟩
  · intro n stream hstream
    rw [hstreams] at hstream
    have hsome : (streams n).isSome := by
      split at hstream
      · simpa using congrArg Option.isSome hstream
      · simp [hstream]
    obtain ⟨before, hbefore⟩ := Option.isSome_iff_exists.1 hsome
    obtain ⟨call, hmem⟩ := h.opened n before hbefore
    exact ⟨_, mem_modifyCall.2 ⟨call, hmem, rfl⟩⟩
  rintro ⟨n, call⟩ hc
  obtain ⟨call, hmem, rfl⟩ := mem_modifyCall.1 hc
  obtain ⟨stream, hstream, hcall⟩ := h.calls _ hmem
  simp only [hstreams]
  by_cases hn : n = name
  · rw [if_pos hn.symm, if_pos hn, hstream]
    exact ⟨f stream, rfl, hheeds _ _ hcall⟩
  · rw [if_neg (Ne.symm hn), if_neg hn]
    exact ⟨stream, hstream, hcall⟩

/-- A call is dropped. -/
theorem abort (h : s.Heeds agent streams)
    (hstreams : ∀ n, streams' n = if name = n then none else streams n) :
    (s.abort name).Heeds agent streams' := by
  have hmem : ∀ c : String × Call, c ∈ (s.abort name).calls ↔ c ∈ s.calls ∧ c.1 ≠ name := by
    simp [Session.abort]
  refine ⟨?_, ?_, nodup_names_abort h.names name, h.agent, h.backend⟩
  · intro n stream hstream
    rw [hstreams] at hstream
    by_cases hn : name = n
    · simp [hn] at hstream
    · rw [if_neg hn] at hstream
      obtain ⟨call, hcall⟩ := h.opened n stream hstream
      exact ⟨call, (hmem _).2 ⟨hcall, Ne.symm hn⟩⟩
  · intro c hc
    obtain ⟨hc, hne⟩ := (hmem c).1 hc
    rw [hstreams, if_neg (Ne.symm hne)]
    exact h.calls c hc

/-- A call is opened. -/
theorem openCall (h : s.Heeds agent streams) {call : Call} {stream : CallStream}
    (hheeds : call.Heeds agent stream)
    (hstreams : ∀ n, streams' n = if name = n then some stream else streams n) :
    (s.openCall name call).Heeds agent streams' := by
  have habort : (s.abort name).Heeds agent fun n => if name = n then none else streams n :=
    h.abort fun n => rfl
  refine ⟨?_, ?_, nodup_names_openCall h.names name call, h.agent, h.backend⟩
  · intro n stream' hstream
    rw [hstreams] at hstream
    by_cases hn : name = n
    · exact ⟨call, List.mem_append.2 (.inr (by simp [hn]))⟩
    · rw [if_neg hn] at hstream
      obtain ⟨call', hcall⟩ := habort.opened n stream' (by simp [hn, hstream])
      exact ⟨call', List.mem_append.2 (.inl hcall)⟩
  · intro c hc
    rw [hstreams]
    rcases List.mem_append.1 hc with hc | hc
    · obtain ⟨stream', hstream, hcall⟩ := habort.calls c hc
      by_cases hn : name = c.1
      · simp [hn] at hstream
      · rw [if_neg hn] at hstream ⊢
        exact ⟨stream', hstream, hcall⟩
    · cases List.mem_singleton.1 hc
      exact ⟨stream, by simp, hheeds⟩

/-- Every event but a stop keeps the invariant. -/
theorem accept (h : s.Heeds agent streams) {e : SessionEvent} (he : e.isStop = false) :
    (s.accept e).Heeds agent fun n => e.record n (streams n) := by
  cases e with
  | openCreate name => exact h.openCall (Call.heeds_create_start agent) fun n => rfl
  | openResult name => exact h.openCall (Call.heeds_result_start agent) fun n => rfl
  | createItem name item =>
    rw [Session.accept, Session.deliverCreate]
    refine h.modifyCall (f := .pushCreate item) ?_ fun n => rfl
    intro call stream hheeds
    cases call <;> cases stream
    case create.create c items ended =>
      exact hheeds.arriveCreate [item] ended fun hended => by simp [Inbox.deliver, hended]
    case result.result => exact hheeds
    all_goals cases hheeds
  | resultItem name item =>
    rw [Session.accept, Session.deliverResult]
    refine h.modifyCall (f := .pushResult item) ?_ fun n => rfl
    intro call stream hheeds
    cases call <;> cases stream
    case create.create => exact hheeds
    case result.result c items ended =>
      exact hheeds.arriveResult [item] ended fun hended => by simp [Inbox.deliver, hended]
    all_goals cases hheeds
  | finish name =>
    rw [Session.accept, Session.finishCall]
    refine h.modifyCall (f := .finish) ?_ fun n => rfl
    intro call stream hheeds
    cases call <;> cases stream
    case create.create c items ended =>
      have hends : (Call.create { c with inbox := c.inbox.finish }).Heeds agent
          (.create (items ++ []) true) :=
        hheeds.arriveCreate [] true fun _ => by simp [Inbox.finish]
      rwa [List.append_nil] at hends
    case result.result c items ended =>
      have hends : (Call.result { c with inbox := c.inbox.finish }).Heeds agent
          (.result (items ++ []) true) :=
        hheeds.arriveResult [] true fun _ => by simp [Inbox.finish]
      rwa [List.append_nil] at hends
    all_goals cases hheeds
  | abort name => exact h.abort fun n => rfl
  | stop => cases he

/-- A call has taken a turn, and the others are as they were. -/
theorem set (h : s.Heeds agent streams) {i : Nat} {call call' : Call}
    (hcall : s.calls[i]? = some (name, call)) {stream : CallStream}
    (hstream : streams name = some stream) (hheeds : call'.Heeds agent stream)
    (created : List CreatedTask) (store : Store) :
    (⟨{ agent with created }, .ofStore store, s.calls.set i (name, call')⟩ : Session).Heeds agent
      streams := by
  have hnames := names_set hcall call'
  refine ⟨?_, ?_, hnames.symm ▸ h.names, ⟨created, rfl⟩, ⟨store, rfl⟩⟩
  · intro n stream' hstream'
    obtain ⟨before, hmem⟩ := h.opened n stream' hstream'
    have hn : n ∈ (s.calls.set i (name, call')).map Prod.fst := by
      rw [hnames]
      exact List.mem_map.2 ⟨_, hmem, rfl⟩
    obtain ⟨c, hc, rfl⟩ := List.mem_map.1 hn
    exact ⟨c.2, hc⟩
  · intro c hc
    rcases mem_set hc with rfl | ⟨j, -, hj⟩
    · exact ⟨stream, hstream, hheeds⟩
    · exact h.calls c (List.mem_of_getElem? hj)

/-- A move is a turn of one of the calls. -/
theorem exists_turn (h : s.Heeds agent streams) (hrun : agent.stopped = false) (hmove : s.Moves t) :
    ∃ (i : Nat) (name : String) (call call' : Call) (stream : CallStream) (store : Store),
      s.calls[i]? = some (name, call) ∧ streams name = some stream ∧ call.result? = none ∧
        s.backend = .ofStore store ∧ t.calls = s.calls.set i (name, call') ∧
        Call.Turn s.agent store stream call (t.agent, t.backend, call') := by
  cases hmove with
  | @call i name call call' a b hcall hmove =>
    obtain ⟨stream, hstream, hheeds⟩ := h.calls _ (List.mem_of_getElem? hcall)
    obtain ⟨created, hagent⟩ := h.agent
    obtain ⟨store, hbackend⟩ := h.backend
    have hresult := hheeds.result?_eq_none_of_moves hmove
    rw [hbackend] at hmove
    have hheeds' : call.Heeds s.agent stream := by
      rw [hagent]
      exact hheeds.setCreated created
    exact ⟨i, name, call, call', stream, store, hcall, hstream, hresult, hbackend, rfl,
      hheeds'.turn (by rw [hagent]; exact hrun) hmove⟩

/-- Every move keeps the invariant. -/
theorem moves (h : s.Heeds agent streams) (hrun : agent.stopped = false) (hmove : s.Moves t) :
    t.Heeds agent streams := by
  obtain ⟨i, name, call, call', stream, store, hcall, hstream, -, -, hcalls, hturn⟩ :=
    h.exists_turn hrun hmove
  obtain ⟨created, hagent⟩ := h.agent
  obtain ⟨tagent, tbackend, tcalls⟩ := t
  rw [hagent] at hturn
  cases hcalls
  generalize hr : (tagent, tbackend, call') = r at hturn
  cases hturn with
  | @keeps store' _ hheeds _ _ _ _ =>
    cases hr
    exact h.set hcall hstream (hheeds.setCreated agent.created) created store'
  | stores hheeds _ _ _ =>
    cases hr
    exact h.set hcall hstream (hheeds.setCreated agent.created) created _
  | replies hstream' _ _ =>
    cases hr
    refine h.set hcall hstream ?_ _ store
    rw [hstream']
    exact .inl (Call.isOver_ended_create _)

/-- Where nothing moves, no call does. -/
theorem not_moves_of_idle (h : s.Heeds agent streams) (hidle : ∀ t, ¬ s.Moves t)
    {call : Call} (hmem : (name, call) ∈ s.calls) :
    ∃ created store, s.agent = { agent with created } ∧ s.backend = .ofStore store ∧
      ∀ r, ¬ call.Moves { agent with created } (.ofStore store) r := by
  obtain ⟨created, hagent⟩ := h.agent
  obtain ⟨store, hbackend⟩ := h.backend
  refine ⟨created, store, hagent, hbackend, ?_⟩
  rintro ⟨a, b, call'⟩ hmove
  obtain ⟨i, hi⟩ := List.getElem?_of_mem hmem
  rw [← hagent, ← hbackend] at hmove
  exact hidle _ (.call hi hmove)

end Heeds

/-- The invariant holds at every moment of a run, until the agent is stopped. -/
theorem Runs.heeds {store : Store} {log : List SessionEvent}
    {answers : List (String × CallResult)} (h : s.Runs agent store log answers)
    (hrun : agent.stopped = false) (hlog : wasStopped log = false) :
    s.Heeds agent (streamOf log) := by
  induction h with
  | start =>
    exact ⟨by simp [streamOf], by simp [Session.start], List.nodup_nil, ⟨_, rfl⟩, ⟨store, rfl⟩⟩
  | @event log answers s e _ ih =>
    rw [wasStopped_append, Bool.or_eq_false_iff] at hlog
    have haccept := (ih hlog.1).accept hlog.2
    simpa only [← streamOf_append] using haccept
  | move _ hmove ih => exact (ih hlog).moves hrun hmove

end Session

end Sidecar
