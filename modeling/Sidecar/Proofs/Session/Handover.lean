import Sidecar.Proofs.Session.Ledger

/-!
# Created tasks are handed over once

`Session.Trades` is a run with finalize requests: elements of streams arrive, calls are opened,
dropped and stopped, tasks are released, and calls move, in any order and at any moment. A
`Session.Chronicle` is what is told of the run. The books are kept in every run
(`Session.Trades.books`), and after a stop no call stores or counts anything (`Session.Closes`).

Two things keep the list of created tasks from being what is stored and not released. A call that is
broken off after its tasks are stored, and before it answers, loses them: they are stored and not
listed. And a task that is stored under an id that is in hand already is in hand twice. Both happen
(`Session.tasks_lost_or_listed_twice`), and nothing else does
(`Session.tasks_handed_over_once`).
-/

namespace Sidecar

/-! ## Runs with finalize requests -/

/-- What is told of a run: what has happened to the session from outside; the answers the calls have
given, each with what had arrived on the stream by then; the replies to finalize requests; the
session at every moment; the ids of tasks that calls held when they were broken off, unless a task
was stored under the id since; and the ids that were entered again while they had an entry. -/
structure Session.Chronicle where
  log : List SessionEvent
  answers : List (Option CallStream × CallResult)
  replies : List FinalizeReply
  moments : List Session
  lost : List String
  again : List String

namespace Session.Chronicle

/-- Nothing has happened yet. -/
def start (s : Session) : Chronicle := ⟨[], [], [], [s], [], []⟩

/-- An event reaches the session. -/
def event (c : Chronicle) (s : Session) (e : SessionEvent) : Chronicle :=
  { c with
    log := c.log ++ [e]
    moments := c.moments ++ [s.accept e]
    lost := c.lost ++ s.lostAt e }

/-- A call moves. -/
def move (c : Chronicle) (s t : Session) : Chronicle :=
  { c with
    answers := c.answers ++ (t.newResults s).map fun a => (streamOf c.log a.1, a.2)
    moments := c.moments ++ [t]
    lost := c.lost.filter fun id => id ∉ t.entries
    again := c.again ++ s.enteredAgain t }

/-- A finalize request is answered. -/
def finalize (c : Chronicle) (s : Session) (request : FinalizeRequest) : Chronicle :=
  { c with
    replies := c.replies ++ [s.finalizeReply request]
    moments := c.moments ++ [s.finalize request] }

end Session.Chronicle

/-- A session that began with an agent and a store, and what is told of it. -/
inductive Session.Trades (agent : Agent) (store : Store) : Session.Chronicle → Session → Prop where
  | start : Trades agent store (.start (.start agent (.ofStore store)))
      (.start agent (.ofStore store))
  | event {c : Session.Chronicle} {s : Session} (e : SessionEvent) (h : Trades agent store c s) :
      Trades agent store (c.event s e) (s.accept e)
  | move {c : Session.Chronicle} {s t : Session} (h : Trades agent store c s)
      (hmove : s.Moves t) : Trades agent store (c.move s t) t
  | finalize {c : Session.Chronicle} {s : Session} (request : FinalizeRequest)
      (h : Trades agent store c s) : Trades agent store (c.finalize s request) (s.finalize request)

namespace Session

variable {s t : Session} {agent : Agent} {store : Store} {c : Chronicle}
  {streams : String → Option CallStream}

/-- Events reach the session one after another, while nothing moves. -/
theorem Trades.events (h : s.Trades agent store c) (events : List SessionEvent) :
    ∃ c' : Chronicle, c'.log = c.log ++ events ∧ c'.replies = c.replies ∧
      (events.foldl accept s).Trades agent store c' := by
  induction events generalizing c s with
  | nil => exact ⟨c, by simp, rfl, h⟩
  | cons e events ih =>
    obtain ⟨c', hlog, hreplies, ht⟩ := ih (h.event e)
    exact ⟨c', by simp [hlog, Chronicle.event], hreplies, ht⟩

/-- Taking some steps, a session comes on. -/
theorem comes_settle (n : Nat) (s : Session) : s.Comes (settle step n s) :=
  settle_induction (fun _ _ hstep h => .tail h (moves_of_step hstep)) n .refl

/-- Moving on, a run gives more answers. Nothing reaches it from outside meanwhile. -/
theorem Trades.comes (h : s.Trades agent store c) (hcomes : s.Comes t) :
    ∃ c' : Chronicle, c'.log = c.log ∧ c'.replies = c.replies ∧ c.answers <+: c'.answers ∧
      t.Trades agent store c' := by
  induction hcomes with
  | refl => exact ⟨c, rfl, rfl, List.prefix_rfl, h⟩
  | @tail t u _ hmove ih =>
    obtain ⟨c', hlog, hreplies, hanswers, ht⟩ := ih
    exact ⟨c'.move t u, hlog, hreplies, hanswers.trans (List.prefix_append _ _), ht.move hmove⟩

/-! ## After a stop -/

/-- A session after a stop: the calls are over or will end as cancelled. -/
structure Closes (s : Session) (agent : Agent) : Prop where
  calls : ∀ c ∈ s.calls, c.2.IsOver ∨ c.2.Live agent
  names : (s.calls.map Prod.fst).Nodup
  agent : ∃ created, s.agent = { agent with created, stopped := true }
  backend : ∃ store, s.backend = .ofStore store

/-- Which tasks count as created, and whether the agent is stopped, does not matter to a call that
is live. -/
theorem live_of_identity_eq {agent' : Agent} {call : Call} (h : call.Live agent)
    (hidentity : agent'.identity = agent.identity) : call.Live agent' := by
  cases call <;> simpa only [Call.Live, hidentity] using h

namespace Closes

/-- A session that is stopped is one after a stop. -/
theorem stop (h : s.Heeds agent streams) : s.stop.Closes agent := by
  obtain ⟨created, hagent⟩ := h.agent
  refine ⟨?_, h.names, ⟨created, by rw [Session.stop, hagent]; rfl⟩, h.backend⟩
  intro c hc
  obtain ⟨stream, -, hcall⟩ := h.calls c hc
  exact hcall.isOver_or_live

/-- Every event leaves it so. -/
theorem accept (h : s.Closes agent) (e : SessionEvent) : (s.accept e).Closes agent := by
  obtain ⟨hbackend, hagent⟩ := s.frame_accept e
  obtain ⟨created, hsame⟩ := h.agent
  refine ⟨isOver_or_live_accept h.calls, nodup_names_accept h.names e, ⟨created, ?_⟩, ?_⟩
  · rw [hagent, hsame]
    split <;> rfl
  · rw [hbackend]
    exact h.backend

/-- A move stores nothing, counts nothing as created, and answers nothing as successful. -/
theorem moves (h : s.Closes agent) (hmove : s.Moves t) :
    t.Closes agent ∧ t.backend = s.backend ∧ t.agent = s.agent ∧
      ∀ a ∈ t.newResults s, ∀ echo, a.2 ≠ .create (.ok ⟨echo, .successful⟩) := by
  obtain ⟨created, hagent⟩ := h.agent
  obtain ⟨store, hbackend⟩ := h.backend
  cases hmove with
  | @call i name call call' a b hcall hmove =>
    have hlive : call.Live agent := (h.calls _ (List.mem_of_getElem? hcall)).resolve_left
      fun hover => hover.not_moves _ _ _ hmove
    have hlive' : call.Live s.agent := live_of_identity_eq hlive (by rw [hagent])
    rw [hbackend] at hmove
    have hnext : a = s.agent ∧ b = s.backend ∧ (call'.IsOver ∨ call'.Live agent) ∧
        ∀ echo, call'.result? ≠ some (.create (.ok ⟨echo, .successful⟩)) := by
      rcases hlive'.moves_stopped (by rw [hagent]) hmove with heq | ⟨call'', heq, -, hlive''⟩
      · cases heq
        refine ⟨rfl, hbackend.symm, .inl (Call.isOver_cancel (.inr hlive)), ?_⟩
        intro echo heq
        rw [result?_cancel, hlive.result?_eq_none] at heq
        cases call <;> cases heq
      · cases heq
        refine ⟨rfl, hbackend.symm, .inr (live_of_identity_eq hlive'' (by rw [hagent])), ?_⟩
        intro echo heq
        rw [hlive''.result?_eq_none] at heq
        cases heq
    obtain ⟨rfl, rfl, hcall', hresult⟩ := hnext
    refine ⟨⟨?_, ?_, ⟨created, hagent⟩, ⟨store, hbackend⟩⟩, rfl, rfl, ?_⟩
    · intro c hc
      rcases mem_set hc with rfl | ⟨j, -, hj⟩
      · exact hcall'
      · exact h.calls c (List.mem_of_getElem? hj)
    · rw [names_set hcall]
      exact h.names
    · rw [newResults_set h.names hcall hlive.result?_eq_none]
      intro answer hanswer echo heq
      obtain ⟨result, hresult', rfl⟩ := Option.map_eq_some_iff.1 (Option.mem_toList.1 hanswer)
      exact hresult echo (hresult'.trans (congrArg some heq))

/-- A move makes no entries. -/
theorem enters (h : s.Closes agent) (hmove : s.Moves t) : s.Enters t streams [] := by
  obtain ⟨-, hbackend, hagent, hresults⟩ := h.moves hmove
  obtain ⟨created, hstop⟩ := h.agent
  have hsum : ((t.newResults s).map fun a => CallStream.announcedBy (streams a.1) a.2).sum = 0 :=
    sum_announcedBy_eq_zero hresults
  refine ⟨List.nodup_nil, ?_, ?_, ?_, by rw [hagent, hsum, Nat.add_zero]⟩
  · simp [entries, heldIds, hagent, hstop]
  · simp [hbackend]
  · simp [hbackend]

/-- A finalize request leaves the calls alone. -/
theorem finalize (h : s.Closes agent) (request : FinalizeRequest) :
    (s.finalize request).Closes agent := by
  obtain ⟨created, hsame⟩ := h.agent
  obtain ⟨store, hbackend⟩ := h.backend
  obtain ⟨⟨created', hagent⟩, hbackend'⟩ := frame_finalize hbackend request
  exact ⟨h.calls, h.names, ⟨created', by rw [hagent, hsame]⟩, hbackend'⟩

end Closes

/-! ## Whole runs -/

/-- A session that runs, each of its calls heeding its stream, or one after a stop. -/
inductive Serves (s : Session) (agent : Agent) (streams : String → Option CallStream) : Prop where
  | running (h : s.Heeds agent streams) (hdiffer : ∀ c ∈ s.calls, c.2.IdsDiffer)
  | stopped (h : s.Closes agent)

namespace Serves

/-- The session serves its agent over a store. -/
theorem frame (h : s.Serves agent streams) :
    s.agent.token = agent.token ∧ ∃ store, s.backend = .ofStore store := by
  cases h with
  | running h _ =>
    obtain ⟨created, hagent⟩ := h.agent
    exact ⟨by rw [hagent], h.backend⟩
  | stopped h =>
    obtain ⟨created, hagent⟩ := h.agent
    exact ⟨by rw [hagent], h.backend⟩

theorem accept (h : s.Serves agent streams) (e : SessionEvent) :
    (s.accept e).Serves agent fun n => e.record n (streams n) := by
  cases h with
  | stopped h => exact .stopped (h.accept e)
  | running h hdiffer =>
    cases he : e.isStop with
    | false => exact .running (h.accept he) (idsDiffer_accept hdiffer e)
    | true =>
      cases e with
      | stop => exact .stopped (.stop h)
      | openCreate | openResult | createItem | resultItem | finish | abort => cases he

/-- A move makes entries for what it stores. -/
theorem moves (h : s.Serves agent streams) (hrun : agent.stopped = false) (hmove : s.Moves t) :
    t.Serves agent streams ∧ ∃ ids, s.Enters t streams ids := by
  cases h with
  | running h hdiffer =>
    obtain ⟨store, hbackend⟩ := h.backend
    exact ⟨.running (h.moves hrun hmove) (idsDiffer_moves hdiffer hbackend hmove),
      h.exists_enters hrun hdiffer hmove⟩
  | stopped h => exact ⟨.stopped (h.moves hmove).1, [], h.enters hmove⟩

theorem finalize (h : s.Serves agent streams) (request : FinalizeRequest) :
    (s.finalize request).Serves agent streams := by
  cases h with
  | running h hdiffer => exact .running (h.finalize request) hdiffer
  | stopped h => exact .stopped (h.finalize request)

/-- Where nothing moves, nothing is held. -/
theorem heldIds_eq_nil (h : s.Serves agent streams) (hrun : agent.stopped = false)
    (hidle : ∀ t, ¬ s.Moves t) : s.heldIds = [] := by
  cases h with
  | running h _ => exact h.heldIds_eq_nil hrun hidle
  | stopped h =>
    obtain ⟨created, hagent⟩ := h.agent
    simp [heldIds, hagent]

end Serves

namespace Trades

/-- A session serves its agent throughout a run. -/
theorem serves (h : s.Trades agent store c) (hrun : agent.stopped = false) :
    s.Serves agent (streamOf c.log) := by
  induction h with
  | start =>
    refine .running ⟨?_, ?_, List.nodup_nil, ⟨_, rfl⟩, ⟨store, rfl⟩⟩ ?_
    · simp [streamOf, Chronicle.start]
    · simp [Session.start]
    · simp [Session.start]
  | event e _ ih =>
    have haccept := ih.accept e
    simpa only [Chronicle.event, ← streamOf_append] using haccept
  | move _ hmove ih => exact (ih.moves hrun hmove).1
  | finalize request _ ih => exact ih.finalize request

/-- The books are kept in every run. -/
theorem books (h : s.Trades agent store c) (hrun : agent.stopped = false)
    (hcreated : agent.created = []) : s.Books c.answers c.replies := by
  induction h with
  | start => constructor <;> simp [Session.start, Chronicle.start, entries, heldIds, hcreated]
  | event e _ ih => exact ih.accept e
  | move h hmove ih =>
    obtain ⟨ids, henters⟩ := ((h.serves hrun).moves hrun hmove).2
    exact ih.enters henters
  | finalize request h ih =>
    obtain ⟨store, hbackend⟩ := (h.serves hrun).frame.2
    exact ih.finalize hbackend request

/-- The session is the last of its moments. -/
theorem mem_moments (h : s.Trades agent store c) : s ∈ c.moments := by
  cases h with
  | start => exact List.mem_singleton_self _
  | event | move | finalize => exact List.mem_append_right _ (List.mem_singleton_self _)

/-- An id has never had two entries exactly if it was not entered again. -/
theorem count_le_one_iff (h : s.Trades agent store c) (hrun : agent.stopped = false)
    (hcreated : agent.created = []) (id : String) :
    (∀ m ∈ c.moments, m.entries.count id ≤ 1) ↔ id ∉ c.again := by
  induction h with
  | start => simp [Chronicle.start, Session.start, entries, heldIds, hcreated]
  | @event c s e h ih =>
    simp only [Chronicle.event, List.forall_mem_append, List.forall_mem_singleton]
    rw [← ih, and_iff_left_of_imp]
    intro hbefore
    have hperm := (s.perm_entries_accept e).count_eq id
    have := hbefore s h.mem_moments
    rw [List.count_append] at hperm
    omega
  | @move c s t h hmove ih =>
    obtain ⟨ids, henters⟩ := ((h.serves hrun).moves hrun hmove).2
    simp only [Chronicle.move, List.forall_mem_append, List.forall_mem_singleton]
    rw [List.mem_append, not_or, ← ih]
    exact and_congr_right fun hbefore => henters.count_le_one_iff (hbefore s h.mem_moments)
  | @finalize c s request h ih =>
    obtain ⟨store, hbackend⟩ := (h.serves hrun).frame.2
    simp only [Chronicle.finalize, List.forall_mem_append, List.forall_mem_singleton]
    rw [← ih, and_iff_left_of_imp]
    intro hbefore
    exact Nat.le_trans ((h.books hrun hcreated).count_entries_finalize_le hbackend request id)
      (hbefore s h.mem_moments)

/-- An id that was not entered again is accounted for in every run. -/
theorem accountsFor (h : s.Trades agent store c) (hrun : agent.stopped = false)
    (hcreated : agent.created = []) (hstore : ∀ id, ¬ store.Awaits id) {id : String}
    (hagain : id ∉ c.again) : s.AccountsFor c.lost id := by
  induction h with
  | start =>
    constructor <;> simp [Session.start, Chronicle.start, entries, heldIds, hcreated,
      Backend.ofStore, hstore]
  | event e _ ih => exact (ih hagain).accept e
  | move h hmove ih =>
    simp only [Chronicle.move, List.mem_append, not_or] at hagain
    obtain ⟨ids, henters⟩ := ((h.serves hrun).moves hrun hmove).2
    exact (ih hagain.1).enters henters hagain.2
  | finalize request h ih =>
    obtain ⟨store, hbackend⟩ := (h.serves hrun).frame.2
    exact (ih hagain).finalize (h.books hrun hcreated) hbackend request

end Trades

/-- **Created tasks are handed over once, but for what is lost with a call or entered again.** An
agent begins with an empty store, and calls overlap, are dropped and are stopped, and tasks are
released, in any order. Every such run comes to rest. Whatever counts as created is stored, so that
a finalize request with the right token releases all of it and does not fail. An id has never been
in hand twice exactly if no task was stored under it while it was in hand; where nothing moves, such
an id is listed at most once, and it is listed exactly while its task is stored and not released,
unless the task was lost: a call that held it was broken off, and no task was stored under the id
since. Where nothing moves, no event loses anything. What was released and what counts as created
are together what was announced by the calls that were answered as successful. And a finalize
request that is refused changes nothing. -/
theorem tasks_handed_over_once (identity : Identity) (token : Token) (capacity limit : Nat)
    {c : Chronicle} {s : Session}
    (h : s.Trades (.start identity token capacity) (.empty limit) c) :
    (∃ (c' : Chronicle) (t : Session), s.Settles t ∧ c'.log = c.log ∧ c'.replies = c.replies ∧
      t.Trades (.start identity token capacity) (.empty limit) c') ∧
    (∀ task ∈ s.agent.created, s.backend.store.tasks.contains task.taskId = true) ∧
    (∀ request : FinalizeRequest, token.refusal? request.token = none →
      s.finalizeReply request = ⟨"", .finalized s.agent.created.length⟩) ∧
    (∀ id, (∀ m ∈ c.moments, m.entries.count id ≤ 1) ↔ id ∉ c.again) ∧
    ((∀ t, ¬ s.Moves t) →
      (∀ e, s.lostAt e = []) ∧
      ∀ id, id ∉ c.again → (s.agent.created.map (·.taskId)).count id ≤ 1 ∧
        ((id ∈ s.agent.created.map (·.taskId) ↔ s.backend.store.Awaits id) ↔ id ∉ c.lost)) ∧
    (c.replies.map FinalizeReply.released).sum + s.agent.created.length =
      (c.answers.map fun a => CallStream.announcedBy a.1 a.2).sum ∧
    ∀ request : FinalizeRequest, (∀ count, (s.finalizeReply request).kind ≠ .finalized count) →
      s.finalize request = s := by
  have hserves := h.serves rfl
  have hbooks := h.books rfl rfl
  have hempty : ∀ id, ¬ (Store.empty limit).Awaits id := by
    rintro id ⟨t, ht, -⟩
    cases ht
  obtain ⟨htoken, store, hbackend⟩ := hserves.frame
  have hok : ∀ request : FinalizeRequest, token.refusal? request.token = none →
      s.finalizeReply request = ⟨"", .finalized s.agent.created.length⟩ := by
    intro request hright
    exact (hbooks.finalize_ok hbackend (by rw [htoken]; exact hright)).1
  refine ⟨?_, ?_, hok, h.count_le_one_iff rfl rfl, ?_, hbooks.count, ?_⟩
  · obtain ⟨c', hlog, hreplies, -, ht⟩ := h.comes s.settles_run.comes
    exact ⟨c', s.run, s.settles_run, hlog, hreplies, ht⟩
  · intro task htask
    exact hbooks.stored _ (List.mem_append_left _ (List.mem_map_of_mem htask))
  · intro hidle
    have hheld := hserves.heldIds_eq_nil rfl hidle
    refine ⟨lostAt_eq_nil hheld, fun id hagain => ?_⟩
    have haccounts := h.accountsFor rfl rfl hempty hagain
    have hentries : s.entries = s.agent.created.map (·.taskId) := by
      rw [entries, hheld, List.append_nil]
    rw [← hentries, haccounts.awaits]
    have hapart := haccounts.apart
    exact ⟨haccounts.once, by tauto⟩
  · intro request hrefused
    cases hright : token.refusal? request.token with
    | none => exact absurd (congrArg FinalizeReply.kind (hok request hright)) (hrefused _)
    | some refusal => exact (finalize_refused (by rw [htoken]; exact hright)).2

/-- A call is sent the requests for tasks of these ids, without payloads. -/
def requestsFor (ids : List String) (name : String) : List SessionEvent :=
  .createItem name (.ok (.init "secret" none)) :: ids.flatMap fun id =>
    [.createItem name (.ok (.header "secret" ⟨id, [], []⟩)),
      .createItem name (.ok (.dataComplete "secret"))]

/-- A call is told that there are no more tasks. -/
def lastRequest (name : String) : SessionEvent := .createItem name (.ok (.lastTask "secret"))

/-- Two tasks are announced, stored and released: the one call that created them was answered as
successful, and has announced the two. -/
theorem two_tasks_handed_over_once :
    ∃ (c : Chronicle) (s : Session),
      s.Trades (.start ⟨"session", "parent"⟩ ⟨"secret"⟩ 1) (.empty 0) c ∧
      c.log =
        .openCreate "call" :: requestsFor ["a", "b"] "call" ++ [lastRequest "call"] ∧
      c.replies = [⟨"", .finalized 2⟩] ∧ s.agent.created = [] ∧
      (c.answers.map fun a => CallStream.announcedBy a.1 a.2).sum = 2 := by
  let agent := Agent.start ⟨"session", "parent"⟩ ⟨"secret"⟩ 1
  let events := .openCreate "call" :: requestsFor ["a", "b"] "call" ++ [lastRequest "call"]
  let s := events.foldl accept (.start agent (.ofStore (.empty 0)))
  have hstart : (Session.start agent (.ofStore (.empty 0))).Trades agent (.empty 0) _ := .start
  obtain ⟨c, hlog, hreplies, hevents⟩ := hstart.events events
  obtain ⟨c', hlog', hreplies', -, hrest⟩ := hevents.comes s.settles_run.comes
  have hreleased := hrest.finalize ⟨"secret"⟩
  have hreply : s.run.finalizeReply ⟨"secret"⟩ = ⟨"", .finalized 2⟩ := by decide +kernel
  have hcreated : (s.run.finalize ⟨"secret"⟩).agent.created = [] := by decide +kernel
  have hfinalized : (c'.finalize s.run ⟨"secret"⟩).replies = [⟨"", .finalized 2⟩] := by
    simp [Chronicle.finalize, hreply, hreplies', hreplies, Chronicle.start]
  obtain ⟨-, -, -, -, -, hcount, -⟩ := tasks_handed_over_once _ _ _ _ hreleased
  rw [hcreated, hfinalized] at hcount
  exact ⟨_, _, hreleased, hlog'.trans hlog, hfinalized, hcreated, hcount.symm⟩

/-- A call that is dropped when its task is stored, and before it answers, leaves the task stored
and not listed. Two calls that overlap and announce tasks of one id are both answered as successful;
the id is listed twice, and two tasks are released where one is stored. -/
theorem tasks_lost_or_listed_twice :
    (∃ (c : Chronicle) (s : Session),
      s.Trades (.start ⟨"session", "parent"⟩ ⟨"secret"⟩ 1) (.empty 0) c ∧
      c.log = .openCreate "call" :: requestsFor ["X"] "call" ++ [lastRequest "call", .abort "call"] ∧
      (∀ t, ¬ s.Moves t) ∧ s.agent.created = [] ∧ s.backend.store.Awaits "X") ∧
    ∃ (c : Chronicle) (s : Session),
      s.Trades (.start ⟨"session", "parent"⟩ ⟨"secret"⟩ 1) (.empty 0) c ∧
      c.log = .openCreate "first" :: .openCreate "second" ::
        requestsFor ["X"] "first" ++ requestsFor ["X"] "second" ++
          [lastRequest "first", lastRequest "second"] ∧
      (∀ t, ¬ s.Moves t) ∧ s.agent.created.map (·.taskId) = ["X", "X"] ∧
      s.backend.store.tasks.entries.length = 1 ∧
      s.finalizeReply ⟨"secret"⟩ = ⟨"", .finalized 2⟩ := by
  let agent := Agent.start ⟨"session", "parent"⟩ ⟨"secret"⟩ 1
  have hstart : (Session.start agent (.ofStore (.empty 0))).Trades agent (.empty 0) _ := .start
  constructor
  · -- The eighth step stores the task, and the ninth would answer the call.
    obtain ⟨c₁, hlog₁, -, h₁⟩ :=
      hstart.events (.openCreate "call" :: requestsFor ["X"] "call" ++ [lastRequest "call"])
    obtain ⟨c₂, hlog₂, -, -, h₂⟩ := h₁.comes (comes_settle 8 _)
    have h₃ := h₂.event (.abort "call")
    obtain ⟨c₄, hlog₄, -, -, h₄⟩ := h₃.comes (settles_run _).comes
    refine ⟨c₄, _, h₄, ?_, (settles_run _).idle, by decide +kernel,
      ⟨"session", "parent", none, ⟨"X", [], []⟩, [], false⟩, by decide +kernel⟩
    rw [hlog₄, Chronicle.event, hlog₂, hlog₁]
    rfl
  · -- Both headers are read before either batch is stored.
    obtain ⟨c₁, hlog₁, -, h₁⟩ := hstart.events (.openCreate "first" :: .openCreate "second" ::
      requestsFor ["X"] "first" ++ requestsFor ["X"] "second")
    obtain ⟨c₂, hlog₂, -, -, h₂⟩ := h₁.comes (settles_run _).comes
    obtain ⟨c₃, hlog₃, -, h₃⟩ := h₂.events [lastRequest "first", lastRequest "second"]
    obtain ⟨c₄, hlog₄, -, -, h₄⟩ := h₃.comes (settles_run _).comes
    refine ⟨c₄, _, h₄, ?_, (settles_run _).idle, by decide +kernel⟩
    rw [hlog₄, hlog₃, hlog₂, hlog₁]
    rfl

end Session

end Sidecar
