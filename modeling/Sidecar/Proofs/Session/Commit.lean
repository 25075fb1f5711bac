import Sidecar.Proofs.Session.Events

/-!
# Batches and results are stored whole or not at all

`Session.commits_all_or_nothing` is about every log of a session over a store and about every
schedule on which the session settles after each of its events. What is stored changes with one
kind of event only: a last message in its turn and with the right token, on the stream of a call
that is not over; and then the whole batch or the whole result appears (`Session.Commits`). From a
stop on nothing changes, and every call that is not over ends as cancelled.
-/

namespace Sidecar

/-- Was the agent stopped? -/
def wasStopped (log : List SessionEvent) : Bool := log.any SessionEvent.isStop

/-- The outcome of a call that was cancelled. -/
def Call.cancelled : Call → CallResult
  | create _ => .create (.error .cancelled)
  | result _ => .result (.error .cancelled)

/-- What an event brings to a stream that was there before it. -/
inductive SessionEvent.Brings (name : String) (stream : CallStream) :
    SessionEvent → CallStream → Prop where
  | nothing (e : SessionEvent) : Brings name stream e stream
  | ending (e : SessionEvent) : Brings name stream e stream.finish
  | createItem (item : Except Cause CreateRequest) :
      Brings name stream (.createItem name item) (stream.pushCreate item)
  | resultItem (item : Except Cause ResultRequest) :
      Brings name stream (.resultItem name item) (stream.pushResult item)

namespace Session

/-- Nothing was stored, and no task was counted as created. -/
structure Unchanged (s t : Session) : Prop where
  backend : t.backend = s.backend
  created : t.agent.created = s.agent.created

/-- An event completes what the stream of a call that is not over has asked for, and all of it is
stored. -/
inductive Commits (log : List SessionEvent) (s t : Session) : SessionEvent → Prop where
  | batch {name : String} {call : CreateCall} {items : List (Except Cause CreateRequest)}
      {b : Batch} {request : CreateRequest} (hrun : wasStopped log = false)
      (hcall : s.call? name = some (.create call)) (hopen : call.result? = none)
      (hstream : streamOf log name = some (.create items false))
      (hscan : scanRequests s.agent.token .idle .empty items =
        .undecided .awaitingHeaderOrEnd b)
      (htoken : s.agent.token.refusal? request.token = none)
      (hlast : CreateStep.ofKind? request.kind = some .lastTask)
      (hstored : t.backend = .ofStore (s.backend.store.addTasks (b.stored s.agent.identity)))
      (hcreated : t.agent.created = s.agent.created ++ b.created)
      (hreply : t.call? name = some (.create (.ended (.ok .successful)))) :
      Commits log s t (.createItem name (.ok request))
  | result {name : String} {call : ResultCall} {items : List (Except Cause ResultRequest)}
      {d : Deposit} {request : ResultRequest} (hrun : wasStopped log = false)
      (hcall : s.call? name = some (.result call)) (hopen : call.result? = none)
      (hstream : streamOf log name = some (.result items false))
      (hscan : scanResults s.agent.token .idle .empty items = .undecided .awaitingEnd d)
      (htoken : s.agent.token.refusal? request.token = none)
      (hlast : ResultStep.ofKind? request.kind = some .lastResult)
      (hstored : t.backend = .ofStore (s.backend.store.addResult d.key (d.stored s.agent.identity)))
      (hcreated : t.agent.created = s.agent.created)
      (hreply : t.call? name = some (.result (.ended (.ok .ok)))) :
      Commits log s t (.resultItem name (.ok request))

variable {s t : Session} {agent : Agent} {limit : Nat} {streams : String → Option CallStream}

/-! ## Where a call that is not over comes from -/

/-- A call that is not over after an event has just begun, or was not over before it. -/
theorem open_accept {e : SessionEvent} (he : e.isStop = false) {name : String} {call : Call}
    {stream : CallStream} (hcall : (name, call) ∈ (s.accept e).calls) (hopen : ¬ call.IsOver)
    (hstream : e.record name (streams name) = some stream) :
    stream = .create [] false ∨ stream = .result [] false ∨
      ∃ call₀ stream₀, (name, call₀) ∈ s.calls ∧ ¬ call₀.IsOver ∧ streams name = some stream₀ ∧
        e.Brings name stream₀ stream := by
  have hmodify : ∀ (n : String) (change : Call → Call) (f : CallStream → CallStream),
      (name, call) ∈ (s.modifyCall n change).calls →
      (∀ call, call.IsOver → (change call).IsOver) →
      (if n = name then (streams name).map f else streams name) = some stream →
      (∀ stream₀, n = name → e.Brings name stream₀ (f stream₀)) →
      ∃ call₀ stream₀, (name, call₀) ∈ s.calls ∧ ¬ call₀.IsOver ∧ streams name = some stream₀ ∧
        e.Brings name stream₀ stream := by
    intro n change f hcall hover hchanged hbrings
    obtain ⟨call₀, hmem, rfl⟩ := mem_modifyCall.1 hcall
    by_cases hn : n = name
    · rw [if_pos hn.symm] at hopen
      rw [if_pos hn, Option.map_eq_some_iff] at hchanged
      obtain ⟨stream₀, hstream₀, rfl⟩ := hchanged
      exact ⟨call₀, stream₀, hmem, fun h => hopen (hover _ h), hstream₀, hbrings _ hn⟩
    · rw [if_neg (Ne.symm hn)] at hopen
      rw [if_neg hn] at hchanged
      exact ⟨call₀, stream, hmem, hopen, hchanged, .nothing e⟩
  have habort : ∀ n, (name, call) ∈ (s.abort n).calls →
      (n ≠ name → e.record name (streams name) = streams name) →
      ∃ call₀ stream₀, (name, call₀) ∈ s.calls ∧ ¬ call₀.IsOver ∧ streams name = some stream₀ ∧
        e.Brings name stream₀ stream := by
    intro n hcall hsame
    obtain ⟨hmem, hne⟩ := List.mem_filter.1 hcall
    have hn : n ≠ name := fun hn => by simp [hn] at hne
    exact ⟨call, stream, hmem, hopen, (hsame hn).symm.trans hstream, .nothing e⟩
  cases e with
  | openCreate n =>
    rcases List.mem_append.1 hcall with hcall | hcall
    · exact .inr (.inr (habort n hcall fun hn => by simp [SessionEvent.record, hn]))
    · cases List.mem_singleton.1 hcall
      simp only [SessionEvent.record, if_true, Option.some.injEq] at hstream
      exact .inl hstream.symm
  | openResult n =>
    rcases List.mem_append.1 hcall with hcall | hcall
    · exact .inr (.inr (habort n hcall fun hn => by simp [SessionEvent.record, hn]))
    · cases List.mem_singleton.1 hcall
      simp only [SessionEvent.record, if_true, Option.some.injEq] at hstream
      exact .inr (.inl hstream.symm)
  | createItem n item =>
    exact .inr (.inr (hmodify n _ _ hcall (fun call hover => by cases call <;> exact hover) hstream
      fun stream₀ hn => hn ▸ .createItem item))
  | resultItem n item =>
    exact .inr (.inr (hmodify n _ _ hcall (fun call hover => by cases call <;> exact hover) hstream
      fun stream₀ hn => hn ▸ .resultItem item))
  | finish n =>
    exact .inr (.inr (hmodify n _ _ hcall (fun call hover => by cases call <;> exact hover) hstream
      fun stream₀ _ => .ending _))
  | abort n =>
    exact .inr (.inr (habort n hcall fun hn => by simp [SessionEvent.record, hn]))
  | stop => cases he

/-- A creation call that is not over finds nothing decided by its stream. -/
theorem Attends.create_undecided (h : s.Attends agent limit streams false)
    (hrun : agent.stopped = false) {name : String} {call : Call} (hcall : (name, call) ∈ s.calls)
    (hopen : ¬ call.IsOver) {items : List (Except Cause CreateRequest)} {ended : Bool}
    (hstream : streams name = some (.create items ended)) :
    ended = false ∧ ∃ c state b, call = .create c ∧ c.result? = none ∧
      scanRequests agent.token .idle .empty items = .undecided state b := by
  obtain ⟨-, hquiet, stream, hstream', hfollows⟩ := (h.calls _ hcall).resolve_left hopen
  cases hstream.symm.trans hstream'
  cases call with
  | create c =>
    obtain ⟨hended, -, -, -, b, hserves, hscan⟩ := hfollows.create_quiet hquiet hrun
    exact ⟨hended, c, _, b, rfl, hserves.result?_eq_none, hscan⟩
  | result c => cases hfollows

/-- A result call that is not over finds nothing decided by its stream. -/
theorem Attends.result_undecided (h : s.Attends agent limit streams false)
    (hrun : agent.stopped = false) {name : String} {call : Call} (hcall : (name, call) ∈ s.calls)
    (hopen : ¬ call.IsOver) {items : List (Except Cause ResultRequest)} {ended : Bool}
    (hstream : streams name = some (.result items ended)) :
    ended = false ∧ ∃ c state d, call = .result c ∧ c.result? = none ∧
      scanResults agent.token .idle .empty items = .undecided state d := by
  obtain ⟨-, hquiet, stream, hstream', hfollows⟩ := (h.calls _ hcall).resolve_left hopen
  cases hstream.symm.trans hstream'
  cases call with
  | create c => cases hfollows
  | result c =>
    obtain ⟨hended, -, -, -, d, hserves, -, hscan⟩ := hfollows.result_quiet hquiet hrun
    exact ⟨hended, c, _, d, rfl, hserves.result?_eq_none, hscan⟩

/-- A batch that is complete after an event was completed by it. -/
theorem Attends.batch_completed (h : s.Attends agent limit streams false)
    (hrun : agent.stopped = false) {e : SessionEvent} (he : e.isStop = false) {name : String}
    {call : Call} (hcall : (name, call) ∈ (s.accept e).calls) (hopen : ¬ call.IsOver)
    {items : List (Except Cause CreateRequest)} {ended : Bool}
    (hstream : e.record name (streams name) = some (.create items ended)) {b : Batch}
    (hscan : scanRequests agent.token .idle .empty items = .complete b) :
    ∃ c before request, e = .createItem name (.ok request) ∧ (name, .create c) ∈ s.calls ∧
      c.result? = none ∧ streams name = some (.create before false) ∧
      scanRequests agent.token .idle .empty before = .undecided .awaitingHeaderOrEnd b ∧
      agent.token.refusal? request.token = none ∧
      CreateStep.ofKind? request.kind = some .lastTask := by
  rcases open_accept he hcall hopen hstream with heq | heq |
    ⟨call₀, stream₀, hmem, hopen₀, hstream₀, hbrings⟩
  · cases heq
    cases hscan
  · cases heq
  · cases stream₀ with
    | result before ended₀ => cases hbrings
    | create before ended₀ =>
      obtain ⟨rfl, c, state, b₀, rfl, hresult, hbefore⟩ :=
        h.create_undecided hrun hmem hopen₀ hstream₀
      cases hbrings with
      | nothing | ending | resultItem item => cases hbefore.symm.trans hscan
      | createItem item =>
        rw [scanRequests, scanStream_concat hbefore] at hscan
        obtain ⟨rfl, rfl, request, rfl, htoken, hlast⟩ :=
          examineCreation_eq_complete_iff.1 hscan
        exact ⟨c, before, request, rfl, hmem, hresult, hstream₀, hbefore, htoken, hlast⟩

/-- A deposit that is complete after an event was completed by it. -/
theorem Attends.deposit_completed (h : s.Attends agent limit streams false)
    (hrun : agent.stopped = false) {e : SessionEvent} (he : e.isStop = false) {name : String}
    {call : Call} (hcall : (name, call) ∈ (s.accept e).calls) (hopen : ¬ call.IsOver)
    {items : List (Except Cause ResultRequest)} {ended : Bool}
    (hstream : e.record name (streams name) = some (.result items ended)) {d : Deposit}
    {echo : String} (hscan : scanResults agent.token .idle .empty items = .complete (d, echo)) :
    ∃ c before request, e = .resultItem name (.ok request) ∧ (name, .result c) ∈ s.calls ∧
      c.result? = none ∧ streams name = some (.result before false) ∧
      scanResults agent.token .idle .empty before = .undecided .awaitingEnd d ∧
      agent.token.refusal? request.token = none ∧
      ResultStep.ofKind? request.kind = some .lastResult := by
  rcases open_accept he hcall hopen hstream with heq | heq |
    ⟨call₀, stream₀, hmem, hopen₀, hstream₀, hbrings⟩
  · cases heq
  · cases heq
    cases hscan
  · cases stream₀ with
    | create before ended₀ => cases hbrings
    | result before ended₀ =>
      obtain ⟨rfl, c, state, d₀, rfl, hresult, hbefore⟩ :=
        h.result_undecided hrun hmem hopen₀ hstream₀
      cases hbrings with
      | nothing | ending | createItem item => cases hbefore.symm.trans hscan
      | resultItem item =>
        rw [scanResults, scanStream_concat hbefore] at hscan
        obtain ⟨rfl, rfl, request, rfl, -, htoken, hlast⟩ :=
          examineIngestion_eq_complete_iff.1 hscan
        exact ⟨c, before, request, rfl, hmem, hresult, hstream₀, hbefore, htoken, hlast⟩

/-! ## What an event changes -/

/-- An event that is not a stop changes nothing, or completes what is then stored. -/
theorem Attends.commits (h : s.Attends agent limit streams false) (hrun : agent.stopped = false)
    {log : List SessionEvent} (hlog : wasStopped log = false)
    (hstreams : streams = streamOf log) {e : SessionEvent} (he : e.isStop = false)
    (hsettles : (s.accept e).Settles t) :
    t.Attends agent limit (streamOf (log ++ [e])) false ∧
      (s.Unchanged t ∨ s.Commits log t e) := by
  subst hstreams
  obtain ⟨created, hagent⟩ := h.frame.agent
  obtain ⟨hbackend, hsame⟩ := s.frame_accept e
  rw [he, if_neg Bool.false_ne_true] at hsame
  obtain ⟨hattends, hchange⟩ := (h.accept hrun he).settles hsettles
  simp only [← streamOf_append] at hattends hchange
  refine ⟨hattends, ?_⟩
  cases hchange with
  | nothing hbackend' hagent' =>
    exact .inl ⟨hbackend'.trans hbackend, by rw [hagent', hsame]⟩
  | @batch _ _ _ _ b hcall hopen hstream hscan hbackend' hagent' hreply =>
    rw [streamOf_append] at hstream
    obtain ⟨c, before, request, rfl, hmem, hresult, hstream₀, hbefore, htoken, hlast⟩ :=
      h.batch_completed hrun he hcall hopen hstream hscan
    rw [hbackend] at hbackend'
    rw [hsame] at hagent'
    refine .inr (.batch (b := b) hlog ((call?_eq_some_iff h.frame.names).2 hmem) hresult hstream₀
      ?_ ?_
      hlast ?_ ?_ ((call?_eq_some_iff hattends.frame.names).2 hreply))
    · rw [hagent, hbefore]
    · rw [hagent, htoken]
    · rw [hbackend', hagent]
    · rw [hagent']
  | @result _ _ _ _ d _ hcall hopen hstream hscan hbackend' hagent' hreply =>
    rw [streamOf_append] at hstream
    obtain ⟨c, before, request, rfl, hmem, hresult, hstream₀, hbefore, htoken, hlast⟩ :=
      h.deposit_completed hrun he hcall hopen hstream hscan
    rw [hbackend] at hbackend'
    refine .inr (.result (d := d) hlog ((call?_eq_some_iff h.frame.names).2 hmem) hresult hstream₀
      ?_ ?_
      hlast ?_ ?_ ((call?_eq_some_iff hattends.frame.names).2 hreply))
    · rw [hagent, hbefore]
    · rw [hagent, htoken]
    · rw [hbackend', hagent]
    · rw [hagent', hsame]

theorem wasStopped_append (log : List SessionEvent) (e : SessionEvent) :
    wasStopped (log ++ [e]) = (wasStopped log || e.isStop) := by
  simp [wasStopped]

/-- A session that settles after each event keeps to its streams. -/
theorem Logged.attends {store : Store} {log : List SessionEvent} (hrun : agent.stopped = false)
    (h : Logged agent store log s) :
    s.Attends agent store.limit (streamOf log) (wasStopped log) := by
  induction h with
  | start =>
    refine ⟨⟨⟨agent.created, ?_⟩, ⟨store, rfl, rfl⟩, List.nodup_nil⟩, fun c hc => by cases hc⟩
    obtain ⟨identity, token, capacity, created, stopped⟩ := agent
    cases hrun
    rfl
  | @snoc log s t e h hsettles ih =>
    cases hstop : wasStopped log || e.isStop with
    | true =>
      rw [wasStopped_append, hstop]
      exact (ih.accept_stopped hstop hsettles _).2
    | false =>
      obtain ⟨hlog, he⟩ := Bool.or_eq_false_iff.1 hstop
      rw [wasStopped_append, hstop]
      rw [hlog] at ih
      exact (ih.commits hrun hlog rfl he hsettles).1

/-- A call that was cancelled has an outcome, and it is the one it had or that of being
cancelled. -/
theorem result?_cancel (call : Call) :
    call.cancel.result? = some (call.result?.getD call.cancelled) := by
  cases call with
  | create c =>
    cases h : c.result? with
    | none => rw [Call.cancel, if_pos h, Call.result?, Call.result?, h]; rfl
    | some result => simp [Call.cancel, Call.result?, h]
  | result c =>
    cases h : c.result? with
    | none => rw [Call.cancel, if_pos h, Call.result?, Call.result?, h]; rfl
    | some result => simp [Call.cancel, Call.result?, h]

/-- Batches and results are stored whole or not at all. Every log of a session over a store can be
run. On each of its runs, an event changes what is stored and what counts as created only if it
completes what the stream of a call that is not over has asked for, and it then stores all of it.
At a stop and after it nothing changes, and each call has the outcome it had before, or ends as
cancelled. -/
theorem commits_all_or_nothing (identity : Identity) (token : Token) (capacity : Nat)
    (created : List CreatedTask) (store : Store) :
    (∀ log, ∃ s, Logged ⟨identity, token, capacity, created, false⟩ store log s) ∧
    ∀ log s e t, Logged ⟨identity, token, capacity, created, false⟩ store log s →
      (s.accept e).Settles t →
      (s.Unchanged t ∨ s.Commits log t e) ∧
      (wasStopped (log ++ [e]) = true → s.Unchanged t ∧
        ∀ name call, (s.accept e).call? name = some call →
          (t.call? name >>= Call.result?) = some (call.result?.getD call.cancelled)) := by
  refine ⟨fun log => ⟨_, logged_replay _ store log⟩, ?_⟩
  intro log s e t hlogged hsettles
  have hattends := hlogged.attends rfl
  cases hstop : wasStopped log || e.isStop with
  | false =>
    obtain ⟨hlog, he⟩ := Bool.or_eq_false_iff.1 hstop
    rw [hlog] at hattends
    refine ⟨(hattends.commits rfl hlog rfl he hsettles).2, ?_⟩
    intro h
    rw [wasStopped_append, hstop] at h
    cases h
  | true =>
    obtain ⟨heq, hover⟩ := hattends.accept_stopped hstop hsettles (streamOf log)
    obtain ⟨hbackend, hagent⟩ := s.frame_accept e
    have hunchanged : s.Unchanged t := by
      refine ⟨by rw [heq, hbackend], ?_⟩
      rw [heq, hagent]
      split <;> rfl
    refine ⟨.inl hunchanged, fun _ => ⟨hunchanged, ?_⟩⟩
    intro name call hcall
    have hmem := (call?_eq_some_iff (nodup_names_accept hattends.frame.names e)).1 hcall
    have hmem' : (name, call.cancel) ∈ t.calls := by
      rw [heq]
      exact List.mem_map.2 ⟨_, hmem, rfl⟩
    rw [(call?_eq_some_iff hover.frame.names).2 hmem']
    exact result?_cancel call

end Session

end Sidecar
