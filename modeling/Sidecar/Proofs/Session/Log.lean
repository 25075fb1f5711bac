import Sidecar.Proofs.Creation.Outcome
import Sidecar.Proofs.Creation.Sequential
import Sidecar.Proofs.Ingestion.Outcome
import Sidecar.Proofs.Session.Schedule
import Sidecar.Proofs.Session.Stopping

/-!
# Sessions and what has happened to them

A log lists what happens to a session from outside (`SessionEvent`): calls are opened and dropped,
elements of their streams arrive, streams end, and the agent is stopped. After each event the
session runs until nothing moves, on whatever schedule (`Session.Logged`).

`streamOf` reads off a log what has arrived for a call. `Session.Attends` is the invariant of a
session that has settled: every call that is not over has read all that has arrived for it, finds
nothing decided by it, and is quiet.
-/

namespace Sidecar

/-- What happens to a session from outside. An element of a stream that is an error is a failure of
the transport. -/
inductive SessionEvent where
  | openCreate (name : String)
  | openResult (name : String)
  | createItem (name : String) (item : Except Cause CreateRequest)
  | resultItem (name : String) (item : Except Cause ResultRequest)
  | finish (name : String)
  | abort (name : String)
  | stop

/-- What happens reaches the session, and nothing has moved yet. -/
def Session.accept (s : Session) : SessionEvent → Session
  | .openCreate name => s.openCall name (.create .start)
  | .openResult name => s.openCall name (.result .start)
  | .createItem name item => s.deliverCreate name (.ofItem item)
  | .resultItem name item => s.deliverResult name (.ofItem item)
  | .finish name => s.finishCall name
  | .abort name => s.abort name
  | .stop => s.stop

/-- What is left of a session after a finalize request. -/
def Session.finalize (s : Session) (request : FinalizeRequest) : Session :=
  let (_, agent, backend) := s.agent.finalize s.backend request
  { s with agent, backend }

/-- The reply to a finalize request. -/
def Session.finalizeReply (s : Session) (request : FinalizeRequest) : FinalizeReply :=
  (s.agent.finalize s.backend request).1

/-- A request with a wrong token changes nothing. -/
theorem Session.finalize_refused {s : Session} {request : FinalizeRequest} {refusal : Refusal}
    (htoken : s.agent.token.refusal? request.token = some refusal) :
    s.finalizeReply request = ⟨request.token, .error refusal.message⟩ ∧
      s.finalize request = s := by
  simp [finalizeReply, finalize, Agent.finalize, htoken]

/-- Such a session has a log that began with an agent and a store. -/
inductive Session.Logged (agent : Agent) (store : Store) : List SessionEvent → Session → Prop where
  | start : Logged agent store [] (Session.start agent (.ofStore store))
  | snoc {log : List SessionEvent} {s t : Session} (e : SessionEvent)
      (h : Logged agent store log s) (hsettles : (s.accept e).Settles t) :
      Logged agent store (log ++ [e]) t

/-- A session runs after each event of a log. -/
def Session.replay (agent : Agent) (store : Store) (log : List SessionEvent) : Session :=
  log.foldl (fun s e => (s.accept e).run) (.start agent (.ofStore store))

/-- Running after each event is one way to settle after each event. -/
theorem Session.logged_replay (agent : Agent) (store : Store) (log : List SessionEvent) :
    Logged agent store log (replay agent store log) := by
  have hall : ∀ (log before : List SessionEvent) (s : Session), Logged agent store before s →
      Logged agent store (before ++ log) (log.foldl (fun s e => (s.accept e).run) s) := by
    intro log
    induction log with
    | nil =>
      intro before s h
      simpa using h
    | cons e log ih =>
      intro before s h
      have := ih (before ++ [e]) _ (.snoc e h (settles_run _))
      simpa using this
  exact hall log [] _ .start

/-! ## Streams -/

/-- What has arrived on the stream of a call, and whether the stream has ended. -/
inductive CallStream where
  | create (items : List (Except Cause CreateRequest)) (ended : Bool)
  | result (items : List (Except Cause ResultRequest)) (ended : Bool)

namespace CallStream

/-- An element arrives. A call of the other kind does not get it. -/
def pushCreate (item : Except Cause CreateRequest) : CallStream → CallStream
  | create items ended => create (items ++ [item]) ended
  | result items ended => result items ended

/-- An element arrives. A call of the other kind does not get it. -/
def pushResult (item : Except Cause ResultRequest) : CallStream → CallStream
  | create items ended => create items ended
  | result items ended => result (items ++ [item]) ended

/-- The stream ends. -/
def finish : CallStream → CallStream
  | create items _ => create items true
  | result items _ => result items true

end CallStream

/-- What an event changes about the stream of a call. -/
def SessionEvent.record (name : String) (stream : Option CallStream) :
    SessionEvent → Option CallStream
  | openCreate n => if n = name then some (.create [] false) else stream
  | openResult n => if n = name then some (.result [] false) else stream
  | createItem n item => if n = name then stream.map (.pushCreate item) else stream
  | resultItem n item => if n = name then stream.map (.pushResult item) else stream
  | finish n => if n = name then stream.map .finish else stream
  | abort n => if n = name then none else stream
  | stop => stream

/-- The stream of the call that was last opened under a name and not dropped. -/
def streamOf (log : List SessionEvent) (name : String) : Option CallStream :=
  log.foldl (fun stream e => e.record name stream) none

theorem streamOf_append (log : List SessionEvent) (e : SessionEvent) (name : String) :
    streamOf (log ++ [e]) name = e.record name (streamOf log name) := by
  simp [streamOf]

/-! ## Calls -/

namespace Call

/-- The call is over, and its submission with it. -/
def IsOver : Call → Prop
  | create c => (∃ result, c.phase = .done result) ∧ c.work = .absent
  | result c => (∃ result, c.phase = .done result) ∧ c.work = .absent

/-- The call is not over, and makes of its stream what the stream comes to. -/
def Follows (agent : Agent) (limit : Nat) : Call → CallStream → Prop
  | create c, .create items ended =>
    ∃ b, c.Pursues agent ended (scanRequests agent.token .idle .empty items) b ∧ ¬ c.HasStored
  | result c, .result items ended =>
    ∃ d, c.Pursues agent ended (scanResults agent.token .idle .empty items) d ∧ ¬ c.HasStored ∧
      c.Checked (.empty limit) d
  | create _, .result _ _ | result _, .create _ _ => False

theorem isOver_ended_create (result : CreateResult) : (create (.ended result)).IsOver :=
  ⟨⟨result, rfl⟩, rfl⟩

theorem isOver_ended_result (result : ResultResult) : (Call.result (.ended result)).IsOver :=
  ⟨⟨result, rfl⟩, rfl⟩

/-- A call that is over does not move, not even after a stop. -/
theorem IsOver.not_moves {call : Call} (h : call.IsOver) (agent : Agent) (backend : Backend)
    (r : Agent × Backend × Call) : ¬ call.Moves agent backend r := by
  intro hmove
  cases hmove with
  | create hmove =>
    obtain ⟨⟨result, hphase⟩, hwork⟩ := h
    cases hmove with
    | call hmove => simp [CreateCall.advance, hphase] at hmove
    | work hmove => simp [CreateCall.advanceWork, hwork] at hmove
  | result hmove =>
    obtain ⟨⟨result, hphase⟩, hwork⟩ := h
    cases hmove with
    | call hmove => simp [ResultCall.advance, hphase] at hmove
    | work hmove => simp [ResultCall.advanceWork, hwork] at hmove

theorem IsOver.quiet {call : Call} (h : call.IsOver) : call.Quiet :=
  fun agent store _ r => h.not_moves agent (.ofStore store) r

/-- A creation call that is quiet has read all that has arrived, and nothing is decided by it. -/
theorem Follows.create_quiet {agent : Agent} {limit : Nat} {c : CreateCall}
    {items : List (Except Cause CreateRequest)} {ended : Bool}
    (h : (create c).Follows agent limit (.create items ended)) (hquiet : (create c).Quiet)
    (hrun : agent.stopped = false) :
    ended = false ∧ c.inbox = ⟨[], false⟩ ∧ c.machine.state ≠ .terminal ∧ ¬ c.HasStored ∧
      ∃ b, c.Serves agent.identity b ∧
        scanRequests agent.token .idle .empty items = .undecided c.machine.state b := by
  obtain ⟨b, hpursues, hstored⟩ := h
  obtain ⟨-, hended, hinbox, -, hphase, hverdict⟩ := hpursues.rests hrun fun r hmove =>
    hquiet agent (.empty 0) hrun _ (.create hmove)
  have horder := hpursues.serves.order
  simp only [CreateCall.InOrder, hphase] at horder
  exact ⟨hended, hinbox, horder.1, hstored, b, hpursues.serves, hverdict⟩

/-- A result call that is quiet has read all that has arrived, and nothing is decided by it. -/
theorem Follows.result_quiet {agent : Agent} {limit : Nat} {c : ResultCall}
    {items : List (Except Cause ResultRequest)} {ended : Bool}
    (h : (Call.result c).Follows agent limit (.result items ended))
    (hquiet : (Call.result c).Quiet) (hrun : agent.stopped = false) :
    ended = false ∧ c.inbox = ⟨[], false⟩ ∧ c.phase = .reading ∧ ¬ c.HasStored ∧
      ∃ d, c.Serves agent.identity d ∧ c.Checked (.empty limit) d ∧
        scanResults agent.token .idle .empty items = .undecided c.machine.state d := by
  obtain ⟨d, hpursues, hstored, hchecked⟩ := h
  obtain ⟨-, hended, hinbox, -, hphase, hverdict⟩ := hpursues.rests hrun fun r hmove =>
    hquiet agent (.empty 0) hrun _ (.result hmove)
  exact ⟨hended, hinbox, hphase, hstored, d, hpursues.serves, hchecked, hverdict⟩

/-- What arrives next for a quiet creation call, or that nothing more arrives, is all it has to
read. -/
theorem Follows.create_arrives {agent : Agent} {limit : Nat} {c : CreateCall}
    {items : List (Except Cause CreateRequest)} {ended : Bool}
    (h : (create c).Follows agent limit (.create items ended)) (hquiet : (create c).Quiet)
    (hrun : agent.stopped = false) (more : List (Except Cause CreateRequest)) (ended' : Bool) :
    (create { c with inbox := ⟨more.map .ofItem, ended'⟩ }).Follows agent limit
      (.create (items ++ more) ended') := by
  obtain ⟨-, -, hstate, hstored, b, hserves, hverdict⟩ := h.create_quiet hquiet hrun
  refine ⟨b, ⟨hserves.setInbox _, more, rfl, ?_⟩, hstored⟩
  have happend := scanStream_append (examineCreation agent.token) items more .idle .empty
  rw [scanRequests] at hverdict
  rw [hverdict] at happend
  rw [CreateCall.prospect, if_neg hstate]
  exact happend.symm

/-- What arrives next for a quiet result call, or that nothing more arrives, is all it has to
read. -/
theorem Follows.result_arrives {agent : Agent} {limit : Nat} {c : ResultCall}
    {items : List (Except Cause ResultRequest)} {ended : Bool}
    (h : (Call.result c).Follows agent limit (.result items ended))
    (hquiet : (Call.result c).Quiet) (hrun : agent.stopped = false)
    (more : List (Except Cause ResultRequest)) (ended' : Bool) :
    (Call.result { c with inbox := ⟨more.map .ofItem, ended'⟩ }).Follows agent limit
      (.result (items ++ more) ended') := by
  obtain ⟨-, -, hphase, hstored, d, hserves, hchecked, hverdict⟩ := h.result_quiet hquiet hrun
  refine ⟨d, ⟨hserves.setInbox _, more, rfl, ?_⟩, hstored, hchecked⟩
  have happend := scanStream_append (examineIngestion agent.token) items more .idle .empty
  rw [scanResults] at hverdict
  rw [hverdict] at happend
  simp only [ResultCall.prospect, hphase]
  exact happend.symm

/-- A creation call that begins follows a stream on which nothing has arrived. -/
theorem follows_create_start (agent : Agent) (limit : Nat) :
    (create .start).Follows agent limit (.create [] false) :=
  ⟨.empty, CreateCall.pursues_start agent [] false,
    by simp [CreateCall.HasStored, CreateCall.start]⟩

/-- A result call that begins follows a stream on which nothing has arrived. -/
theorem follows_result_start (agent : Agent) (limit : Nat) :
    (Call.result .start).Follows agent limit (.result [] false) :=
  ⟨.empty, ⟨ResultCall.serves_start agent.identity _, [], rfl, rfl⟩,
    by simp [ResultCall.HasStored, ResultCall.start], trivial⟩

end Call

end Sidecar
