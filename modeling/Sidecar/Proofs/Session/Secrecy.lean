import Sidecar.Agent.Fetch
import Sidecar.Proofs.Session.Events

/-!
# A peer without the secret

A peer that does not know an agent's secret opens calls, sends messages and makes requests
(`PeerStep`). What it is answered must not depend on anything the agent keeps from it: the secret
itself, whom the agent serves, what is stored, what was created, and which resources there are.

A message is refused for its own token alone, before anything else about it is looked at, and the
refusal says no more than whether there was a token (`Token.refuses_of_ne`). So a call whose first
message is refused is over before it has begun a submission, and a session of such calls settles in
a way that is read off the calls and the stop (`Session.TurnsAway.settles`). From this it follows
that two agents cannot be told apart, and that neither changes
(`Session.stranger_learns_and_changes_nothing`).
-/

namespace Sidecar

/-! ## Tokens -/

/-- Two of the texts have one digest only if they are one text. -/
def Token.NoCollision (texts : List String) : Prop :=
  ∀ p ∈ texts, ∀ q ∈ texts, Token.digest p = Token.digest q → p = q

instance (texts : List String) : Decidable (Token.NoCollision texts) :=
  inferInstanceAs (Decidable (∀ p ∈ texts, ∀ q ∈ texts, Token.digest p = Token.digest q → p = q))

/-- Why a text that is not the secret is refused. -/
def Refusal.of (presented : String) : Refusal := if presented = "" then .missing else .wrong

/-- The token refuses the text, and the refusal says no more than whether there is a text. -/
def Token.Refuses (token : Token) (presented : String) : Prop :=
  token.refusal? presented = some (.of presented)

/-- A text is refused unless it is the secret and not empty. -/
theorem Token.refuses_of_ne {token : Token} {presented : String}
    (h : presented ≠ "" → presented ≠ token.secret)
    (hdigest : digest presented = digest token.secret → presented = token.secret) :
    token.Refuses presented := by
  unfold Refuses refusal? Refusal.of
  split
  · rfl
  next hne => rw [if_neg fun heq => h hne (hdigest heq)]

/-! ## What a peer does -/

/-- The tokens of the messages that an event brings. -/
def SessionEvent.presented : SessionEvent → List String
  | createItem _ (.ok request) => [request.token]
  | resultItem _ (.ok request) => [request.token]
  | createItem _ (.error _) | resultItem _ (.error _) | openCreate _ | openResult _ | finish _
  | abort _ | stop => []

/-- What a peer does: some events at once, or a request. -/
inductive PeerStep where
  | events (burst : List SessionEvent)
  | getResource (request : FetchRequest)
  | getCommon (request : FetchRequest)
  | getDirect (request : FetchRequest)
  | finalize (request : FinalizeRequest)

/-- The tokens of the messages a peer sends. -/
def PeerStep.presented : PeerStep → List String
  | events burst => burst.flatMap SessionEvent.presented
  | getResource request | getCommon request | getDirect request => [request.token]
  | finalize request => [request.token]

/-- What a peer is answered: the outcomes of the calls that have one now, or the replies to its
request. -/
inductive PeerAnswer where
  | results (results : List (String × CallResult))
  | fetched (replies : List FetchReply)
  | finalized (reply : FinalizeReply)

namespace Session

/-- What a session answers to a step of a peer, and what it is then. After events the session
settles, on whatever schedule. -/
inductive Answers (library : Library) (s : Session) : PeerStep → PeerAnswer → Session → Prop where
  | events {burst : List SessionEvent} {t : Session} (h : (burst.foldl accept s).Settles t) :
      Answers library s (.events burst) (.results (t.newResults (burst.foldl accept s))) t
  | getResource (request : FetchRequest) :
      Answers library s (.getResource request) (.fetched (s.agent.getResource library request)) s
  | getCommon (request : FetchRequest) :
      Answers library s (.getCommon request) (.fetched [s.agent.getCommon request]) s
  | getDirect (request : FetchRequest) :
      Answers library s (.getDirect request) (.fetched [s.agent.getDirect request]) s
  | finalize (request : FinalizeRequest) :
      Answers library s (.finalize request) (.finalized (s.finalizeReply request))
        (s.finalize request)

/-- What a session answers to the steps of a peer, and what it is in the end. -/
inductive Deals (library : Library) : Session → List PeerStep → List PeerAnswer → Session →
    Prop where
  | nil {s : Session} : Deals library s [] [] s
  | cons {s t u : Session} {step : PeerStep} {steps : List PeerStep} {answer : PeerAnswer}
      {answers : List PeerAnswer} (h : s.Answers library step answer t)
      (hrest : t.Deals library steps answers u) :
      Deals library s (step :: steps) (answer :: answers) u

/-- A session answers every step. -/
theorem exists_deals (library : Library) (s : Session) (steps : List PeerStep) :
    ∃ answers t, s.Deals library steps answers t := by
  induction steps generalizing s with
  | nil => exact ⟨[], s, .nil⟩
  | cons step steps ih =>
    have hanswers : ∃ answer t, s.Answers library step answer t := by
      cases step with
      | events burst => exact ⟨_, _, .events (settles_run _)⟩
      | getResource request => exact ⟨_, _, .getResource request⟩
      | getCommon request => exact ⟨_, _, .getCommon request⟩
      | getDirect request => exact ⟨_, _, .getDirect request⟩
      | finalize request => exact ⟨_, _, .finalize request⟩
    obtain ⟨answer, t, hanswer⟩ := hanswers
    obtain ⟨answers, u, hrest⟩ := ih t
    exact ⟨_, u, .cons hanswer hrest⟩

end Session

/-! ## Calls that are turned away -/

/-- What has arrived is a message that satisfies a condition, or a failure of the transport. -/
def Arrival.Brings {μ : Type} (P : μ → Prop) : Arrival μ → Prop
  | message m => P m
  | stopping _ => False
  | broken _ => True

/-- The outcome of a call that has read nothing, where the first message gets a reply. -/
def Inbox.rejection? {μ ρ : Type} (inbox : Inbox μ) (stopped : Bool) (stream : String)
    (reply : μ → ρ) : Option (Except CallError ρ) :=
  match inbox.take stopped stream with
  | .waiting => none
  | .error e => some (.error e)
  | .message m _ _ => some (.ok (reply m))

/-- A message that is taken satisfies what all that have arrived satisfy, and does not stop the
agent. -/
theorem Inbox.brings_of_take_message {μ : Type} {P : μ → Prop} {inbox rest : Inbox μ}
    {stopped stops : Bool} {stream : String} {m : μ} (hall : ∀ a ∈ inbox.arrivals, a.Brings P)
    (h : inbox.take stopped stream = .message m rest stops) : P m ∧ stops = false := by
  obtain ⟨arrivals, ended⟩ := inbox
  unfold take at h
  split at h
  · cases h
  · cases arrivals with
    | nil => cases ended <;> cases h
    | cons arrival arrivals =>
      have hfirst := hall arrival List.mem_cons_self
      cases arrival <;> cases h
      · exact ⟨hfirst, rfl⟩
      · exact hfirst.elim

/-- The reply to a creation message that is refused. -/
def CreateRequest.refused (request : CreateRequest) : CreateReply :=
  .error request.token (Refusal.of request.token).message

/-- The reply to a result message that is refused. -/
def ResultRequest.refused (request : ResultRequest) : ResultReply :=
  .error request.token (Refusal.of request.token).message

/-- A creation call that has read nothing, and will refuse what has arrived, ends at the first
message. -/
theorem CreateCall.advance_unheard {agent : Agent} {inbox : Inbox CreateRequest}
    (h : ∀ a ∈ inbox.arrivals, a.Brings fun m => agent.token.Refuses m.token) (backend : Backend) :
    ({ start with inbox } : CreateCall).advance agent backend =
      (inbox.rejection? agent.stopped "CreateTask" CreateRequest.refused).map fun result =>
        (agent, ended result) := by
  simp only [advance, start, Inbox.rejection?]
  cases htake : inbox.take agent.stopped "CreateTask" with
  | waiting => rfl
  | error e => rfl
  | message m rest stops =>
    obtain ⟨hrefuses, rfl⟩ := Inbox.brings_of_take_message h htake
    simp only [Token.Refuses] at hrefuses
    simp [receive, hrefuses, CreateRequest.refused]

/-- A result call that has read nothing, and will refuse what has arrived, ends at the first
message. -/
theorem ResultCall.advance_unheard {agent : Agent} {inbox : Inbox ResultRequest}
    (h : ∀ a ∈ inbox.arrivals, a.Brings fun m => agent.token.Refuses m.token) (backend : Backend) :
    ({ start with inbox } : ResultCall).advance agent backend =
      (inbox.rejection? agent.stopped "SendResult" ResultRequest.refused).map fun result =>
        (agent, ended result) := by
  simp only [advance, start, Inbox.rejection?]
  cases htake : inbox.take agent.stopped "SendResult" with
  | waiting => rfl
  | error e => rfl
  | message m rest stops =>
    obtain ⟨hrefuses, rfl⟩ := Inbox.brings_of_take_message h htake
    simp only [Token.Refuses] at hrefuses
    simp [receive, hrefuses, ResultRequest.refused]

namespace Call

/-- The call has read nothing, and the token refuses every message that has arrived. -/
def Unheard (token : Token) : Call → Prop
  | create c => ∃ inbox, c = { CreateCall.start with inbox } ∧
      ∀ a ∈ inbox.arrivals, a.Brings fun m => token.Refuses m.token
  | result c => ∃ inbox, c = { ResultCall.start with inbox } ∧
      ∀ a ∈ inbox.arrivals, a.Brings fun m => token.Refuses m.token

/-- What becomes of a call that is turned away. It depends on what has arrived, and on whether the
agent was stopped. -/
def turnedAway (stopped : Bool) (call : Call) : Call :=
  if call.result?.isSome then call
  else
    match call with
    | create c =>
      ((c.inbox.rejection? stopped "CreateTask" CreateRequest.refused).map fun result =>
        create (.ended result)).getD call
    | result c =>
      ((c.inbox.rejection? stopped "SendResult" ResultRequest.refused).map fun outcome =>
        result (.ended outcome)).getD call

variable {agent : Agent} {backend : Backend} {call : Call}

theorem turnedAway_create (inbox : Inbox CreateRequest) (stopped : Bool) :
    turnedAway stopped (create { CreateCall.start with inbox }) =
      ((inbox.rejection? stopped "CreateTask" CreateRequest.refused).map fun result =>
        create (.ended result)).getD (create { CreateCall.start with inbox }) := rfl

theorem turnedAway_result (inbox : Inbox ResultRequest) (stopped : Bool) :
    turnedAway stopped (Call.result { ResultCall.start with inbox }) =
      ((inbox.rejection? stopped "SendResult" ResultRequest.refused).map fun outcome =>
        Call.result (.ended outcome)).getD (Call.result { ResultCall.start with inbox }) := rfl

theorem turnedAway_of_isOver (h : call.IsOver) (stopped : Bool) :
    call.turnedAway stopped = call := by
  refine if_pos ?_
  cases call with
  | create c =>
    obtain ⟨⟨result, hphase⟩, -⟩ := h
    simp [result?, CreateCall.result?, hphase]
  | result c =>
    obtain ⟨⟨result, hphase⟩, -⟩ := h
    simp [result?, ResultCall.result?, hphase]

/-- A call that has read nothing is turned away by the only move it can make. -/
theorem Unheard.moves (h : call.Unheard agent.token) {r : Agent × Backend × Call}
    (hmove : call.Moves agent backend r) :
    r = (agent, backend, call.turnedAway agent.stopped) ∧
      (call.turnedAway agent.stopped).IsOver := by
  cases hmove with
  | @create c c' agent' backend' hmove =>
    obtain ⟨inbox, rfl, hall⟩ := h
    cases hmove with
    | work hwork => cases hwork
    | call hadvance =>
      rw [CreateCall.advance_unheard hall] at hadvance
      obtain ⟨result, hresult, heq⟩ := Option.map_eq_some_iff.1 hadvance
      cases heq
      rw [turnedAway_create, hresult]
      exact ⟨rfl, isOver_ended_create result⟩
  | @result c c' agent' backend' hmove =>
    obtain ⟨inbox, rfl, hall⟩ := h
    cases hmove with
    | work hwork => cases hwork
    | call hadvance =>
      rw [ResultCall.advance_unheard hall] at hadvance
      obtain ⟨outcome, hresult, heq⟩ := Option.map_eq_some_iff.1 hadvance
      cases heq
      rw [turnedAway_result, hresult]
      exact ⟨rfl, isOver_ended_result outcome⟩

/-- A call that has read nothing and cannot move is not turned away. -/
theorem Unheard.turnedAway_of_idle (h : call.Unheard agent.token)
    (hidle : ∀ r, ¬ call.Moves agent backend r) : call.turnedAway agent.stopped = call := by
  cases call with
  | create c =>
    obtain ⟨inbox, rfl, hall⟩ := h
    have hadvance := CreateCall.advance_unheard hall backend
    cases hresult : inbox.rejection? agent.stopped "CreateTask" CreateRequest.refused with
    | none =>
      rw [turnedAway_create, hresult]
      rfl
    | some result =>
      rw [hresult] at hadvance
      exact absurd (.create (.call hadvance)) (hidle _)
  | result c =>
    obtain ⟨inbox, rfl, hall⟩ := h
    have hadvance := ResultCall.advance_unheard hall backend
    cases hresult : inbox.rejection? agent.stopped "SendResult" ResultRequest.refused with
    | none =>
      rw [turnedAway_result, hresult]
      rfl
    | some result =>
      rw [hresult] at hadvance
      exact absurd (.result (.call hadvance)) (hidle _)

/-- What arrives for a call that has read nothing is not heard either, if it is refused. -/
theorem Unheard.deliverCreate {token : Token} {c : CreateCall} (h : (create c).Unheard token)
    {item : Except Cause CreateRequest}
    (hitem : (Arrival.ofItem item).Brings fun m => token.Refuses m.token) :
    (create { c with inbox := c.inbox.deliver (.ofItem item) }).Unheard token := by
  obtain ⟨inbox, rfl, hall⟩ := h
  refine ⟨inbox.deliver (.ofItem item), rfl, fun a ha => ?_⟩
  rcases List.mem_append.1 ha with ha | ha
  · exact hall a ha
  · cases List.mem_singleton.1 ha
    exact hitem

/-- What arrives for a call that has read nothing is not heard either, if it is refused. -/
theorem Unheard.deliverResult {token : Token} {c : ResultCall} (h : (Call.result c).Unheard token)
    {item : Except Cause ResultRequest}
    (hitem : (Arrival.ofItem item).Brings fun m => token.Refuses m.token) :
    (Call.result { c with inbox := c.inbox.deliver (.ofItem item) }).Unheard token := by
  obtain ⟨inbox, rfl, hall⟩ := h
  refine ⟨inbox.deliver (.ofItem item), rfl, fun a ha => ?_⟩
  rcases List.mem_append.1 ha with ha | ha
  · exact hall a ha
  · cases List.mem_singleton.1 ha
    exact hitem

end Call

namespace Session

/-- The session serves an agent over a backend, both as they were but for a stop, and its calls are
over or have read nothing. -/
structure TurnsAway (s : Session) (agent : Agent) (backend : Backend) : Prop where
  calls : ∀ c ∈ s.calls, c.2.IsOver ∨ c.2.Unheard agent.token
  agent : ∃ stopped, s.agent = { agent with stopped }
  backend : s.backend = backend

variable {s t : Session} {agent : Agent} {backend : Backend}

namespace TurnsAway

/-- The token of the agent stays what it is. -/
theorem token (h : s.TurnsAway agent backend) : s.agent.token = agent.token := by
  obtain ⟨stopped, hagent⟩ := h.agent
  rw [hagent]

/-- An event whose messages are refused is not heard. -/
theorem accept (h : s.TurnsAway agent backend) {e : SessionEvent}
    (hrefused : ∀ p ∈ e.presented, agent.token.Refuses p) :
    (s.accept e).TurnsAway agent backend := by
  obtain ⟨hbackend, hagent⟩ := s.frame_accept e
  obtain ⟨stopped, hsame⟩ := h.agent
  refine ⟨?_, ⟨stopped || e.isStop, ?_⟩, hbackend.trans h.backend⟩
  · refine forall_calls_accept (P := fun call => call.IsOver ∨ call.Unheard agent.token) h.calls
      (.inr ⟨.empty, rfl, by simp [Inbox.empty]⟩) (.inr ⟨.empty, rfl, by simp [Inbox.empty]⟩)
      ?_ ?_ ?_
    · rintro name item rfl c (hover | hunheard)
      · exact .inl hover
      · refine .inr (hunheard.deliverCreate ?_)
        cases item with
        | error cause => trivial
        | ok request => exact hrefused _ (by simp [SessionEvent.presented])
    · rintro name item rfl c (hover | hunheard)
      · exact .inl hover
      · refine .inr (hunheard.deliverResult ?_)
        cases item with
        | error cause => trivial
        | ok request => exact hrefused _ (by simp [SessionEvent.presented])
    · rintro (c | c) (hover | ⟨inbox, rfl, hall⟩)
      · exact .inl hover
      · exact .inr ⟨inbox.finish, rfl, hall⟩
      · exact .inl hover
      · exact .inr ⟨inbox.finish, rfl, hall⟩
  · rw [hagent, hsame]
    cases e.isStop <;> simp [Agent.stop]

/-- A move turns a call away. -/
theorem moves (h : s.TurnsAway agent backend) (hmove : s.Moves t) :
    t.TurnsAway agent backend ∧ t.agent = s.agent ∧
      t.calls.map (fun c => (c.1, c.2.turnedAway s.agent.stopped)) =
        s.calls.map fun c => (c.1, c.2.turnedAway s.agent.stopped) := by
  cases hmove with
  | @call i name call call' a b hcall hmove =>
    have hunheard : call.Unheard s.agent.token := by
      rw [h.token]
      exact (h.calls _ (List.mem_of_getElem? hcall)).resolve_left
        fun hover => hover.not_moves _ _ _ hmove
    obtain ⟨heq, hover⟩ := hunheard.moves hmove
    cases heq
    refine ⟨⟨?_, h.agent, h.backend⟩, rfl, ?_⟩
    · intro c hc
      rcases mem_set hc with rfl | ⟨j, -, hj⟩
      · exact .inl hover
      · exact h.calls c (List.mem_of_getElem? hj)
    · rw [List.map_set, Call.turnedAway_of_isOver hover]
      exact set_of_getElem?_eq_some (by rw [List.getElem?_map, hcall]; rfl)

/-- However the session settles, every call is turned away for which something has arrived, and
nothing else changes. -/
theorem settles (h : s.TurnsAway agent backend) (hsettles : s.Settles t) :
    t.TurnsAway agent backend ∧
      t = { s with calls := s.calls.map fun c => (c.1, c.2.turnedAway s.agent.stopped) } := by
  obtain ⟨haway, hagent, hcalls⟩ := hsettles.comes.induct
    (motive := fun t => t.TurnsAway agent backend ∧ t.agent = s.agent ∧
      t.calls.map (fun c => (c.1, c.2.turnedAway s.agent.stopped)) =
        s.calls.map fun c => (c.1, c.2.turnedAway s.agent.stopped))
    ⟨h, rfl, rfl⟩ fun t u ⟨ht, hagent, hcalls⟩ hmove => by
      obtain ⟨hu, hagent', hcalls'⟩ := ht.moves hmove
      rw [hagent] at hagent' hcalls'
      exact ⟨hu, hagent', hcalls'.trans hcalls⟩
  refine ⟨haway, ?_⟩
  have hidle : t.calls.map (fun c => (c.1, c.2.turnedAway s.agent.stopped)) = t.calls := by
    refine (List.map_congr_left fun c hc => ?_).trans (List.map_id' _)
    rcases haway.calls c hc with hover | hunheard
    · rw [Call.turnedAway_of_isOver hover]
    · obtain ⟨i, hi⟩ := List.getElem?_of_mem hc
      rw [← haway.token] at hunheard
      rw [← hagent, hunheard.turnedAway_of_idle fun r hmove => hsettles.idle _ (.call hi hmove)]
  have hbackend : t.backend = s.backend := haway.backend.trans h.backend.symm
  obtain ⟨tagent, tbackend, tcalls⟩ := t
  simp only at hagent hidle hcalls hbackend
  rw [← hcalls, hidle, hagent, hbackend]

end TurnsAway

end Session

/-! ## Requests -/

/-- The reply to a request for data that is refused. -/
def FetchRequest.refused (request : FetchRequest) : FetchReply :=
  .error request.token (Refusal.of request.token).message

/-- The reply to a finalize request that is refused. -/
def FinalizeRequest.refused (request : FinalizeRequest) : FinalizeReply :=
  ⟨request.token, .error (Refusal.of request.token).message⟩

/-- A request for a resource that is refused is answered without a look at the resources. -/
theorem Agent.getResource_refused {agent : Agent} {request : FetchRequest}
    (h : agent.token.Refuses request.token) (library : Library) :
    agent.getResource library request = [request.refused] := by
  rw [Token.Refuses] at h
  simp [getResource, Fetch.answer, h, FetchRequest.refused]

/-- A request for data of a kind that is not supported is refused like any other. -/
theorem Fetch.unsupported_refused {agent : Agent} {request : FetchRequest}
    (h : agent.token.Refuses request.token) (text : String) :
    Fetch.unsupported agent text request = request.refused := by
  rw [Token.Refuses] at h
  simp [unsupported, h, FetchRequest.refused]

/-! ## Sessions that turn a peer away -/

namespace Session

variable {s t : Session} {agent : Agent} {backend : Backend} {library : Library}
  {step : PeerStep} {answer : PeerAnswer}

/-- What a peer is told that is turned away, and what the session is then. Of the session, this
looks at the calls and the stop, and at nothing else. -/
def turnAway (s : Session) : PeerStep → PeerAnswer × Session
  | .events burst =>
    let u := burst.foldl accept s
    let t := { u with calls := u.calls.map fun c => (c.1, c.2.turnedAway u.agent.stopped) }
    (.results (t.newResults u), t)
  | .getResource request | .getCommon request | .getDirect request =>
    (.fetched [request.refused], s)
  | .finalize request => (.finalized request.refused, s)

/-- Events whose messages are refused are not heard. -/
theorem TurnsAway.foldl_accept (h : s.TurnsAway agent backend) {burst : List SessionEvent}
    (hrefused : ∀ p ∈ burst.flatMap SessionEvent.presented, agent.token.Refuses p) :
    (burst.foldl Session.accept s).TurnsAway agent backend := by
  induction burst generalizing s with
  | nil => exact h
  | cons e burst ih =>
    rw [List.flatMap_cons] at hrefused
    exact ih (h.accept fun p hp => hrefused p (List.mem_append_left _ hp)) fun p hp =>
      hrefused p (List.mem_append_right _ hp)

/-- A peer whose messages are refused is turned away. -/
theorem TurnsAway.answers (h : s.TurnsAway agent backend)
    (hrefused : ∀ p ∈ step.presented, agent.token.Refuses p)
    (hanswer : s.Answers library step answer t) :
    (answer, t) = s.turnAway step ∧ t.TurnsAway agent backend := by
  rw [← h.token] at hrefused
  cases hanswer with
  | @events burst _ hsettles =>
    rw [h.token] at hrefused
    obtain ⟨haway, heq⟩ := (h.foldl_accept hrefused).settles hsettles
    exact ⟨by rw [turnAway, ← heq], haway⟩
  | getResource request =>
    have htoken := hrefused request.token List.mem_cons_self
    exact ⟨by rw [turnAway, Agent.getResource_refused htoken], h⟩
  | getCommon request =>
    have htoken := hrefused request.token List.mem_cons_self
    exact ⟨by rw [turnAway, Agent.getCommon, Fetch.unsupported_refused htoken], h⟩
  | getDirect request =>
    have htoken := hrefused request.token List.mem_cons_self
    exact ⟨by rw [turnAway, Agent.getDirect, Fetch.unsupported_refused htoken], h⟩
  | finalize request =>
    obtain ⟨hreply, hsame⟩ := finalize_refused (hrefused request.token List.mem_cons_self)
    rw [hreply, hsame]
    exact ⟨rfl, h⟩

/-! ## Two agents -/

/-- The sessions have the same calls, and both or neither of them are stopped. -/
structure Alike (s t : Session) : Prop where
  calls : s.calls = t.calls
  stopped : s.agent.stopped = t.agent.stopped

/-- Events do the same to both. -/
theorem Alike.foldl_accept (h : s.Alike t) (burst : List SessionEvent) :
    (burst.foldl Session.accept s).Alike (burst.foldl Session.accept t) := by
  induction burst generalizing s t with
  | nil => exact h
  | cons e burst ih =>
    refine ih ⟨?_, ?_⟩
    · cases e <;>
        simp only [Session.accept, openCall, deliverCreate, deliverResult, finishCall, modifyCall,
          abort, Session.stop, h.calls]
    · rw [(s.frame_accept e).2, (t.frame_accept e).2]
      split
      · rfl
      · exact h.stopped

/-- What is new depends on the calls alone. -/
theorem newResults_congr {s' t' : Session} (hbefore : s.calls = s'.calls)
    (hafter : t.calls = t'.calls) : t.newResults s = t'.newResults s' := by
  have hcall : ∀ name, s.call? name = s'.call? name := fun name => by rw [call?, call?, hbefore]
  simp [newResults, hcall, hafter]

/-- A peer that is turned away by both is told the same by both, and they stay alike. -/
theorem Alike.turnAway (h : s.Alike t) (step : PeerStep) :
    (s.turnAway step).1 = (t.turnAway step).1 ∧ (s.turnAway step).2.Alike (t.turnAway step).2 := by
  cases step with
  | events burst =>
    obtain ⟨hcalls, hstopped⟩ := h.foldl_accept burst
    have haway : (s.turnAway (.events burst)).2.calls = (t.turnAway (.events burst)).2.calls := by
      simp only [Session.turnAway, hcalls, hstopped]
    exact ⟨congrArg PeerAnswer.results (newResults_congr hcalls haway), haway, hstopped⟩
  | getResource | getCommon | getDirect | finalize => exact ⟨rfl, h⟩

/-- A run whose messages are refused leaves the agent and the backend as they are. -/
theorem Deals.turnsAway {steps : List PeerStep} {answers : List PeerAnswer}
    (hdeals : s.Deals library steps answers t) (h : s.TurnsAway agent backend)
    (hrefused : ∀ p ∈ steps.flatMap PeerStep.presented, agent.token.Refuses p) :
    t.TurnsAway agent backend := by
  induction hdeals with
  | nil => exact h
  | cons hanswer _ ih =>
    rw [List.flatMap_cons] at hrefused
    refine ih (h.answers (fun p hp => ?_) hanswer).2 fun p hp => ?_
    · exact hrefused p (List.mem_append_left _ hp)
    · exact hrefused p (List.mem_append_right _ hp)

/-- Two runs whose messages are refused are answered alike. -/
theorem Deals.alike {s₁ s₂ t₁ t₂ : Session} {agent₁ agent₂ : Agent} {backend₁ backend₂ : Backend}
    {library₁ library₂ : Library} {steps : List PeerStep} {answers₁ answers₂ : List PeerAnswer}
    (hdeals₁ : s₁.Deals library₁ steps answers₁ t₁) (hdeals₂ : s₂.Deals library₂ steps answers₂ t₂)
    (h₁ : s₁.TurnsAway agent₁ backend₁) (h₂ : s₂.TurnsAway agent₂ backend₂) (halike : s₁.Alike s₂)
    (hrefused : ∀ p ∈ steps.flatMap PeerStep.presented,
      agent₁.token.Refuses p ∧ agent₂.token.Refuses p) :
    answers₁ = answers₂ ∧ t₁.Alike t₂ := by
  induction hdeals₁ generalizing s₂ answers₂ with
  | nil =>
    cases hdeals₂
    exact ⟨rfl, halike⟩
  | @cons s t u step steps answer answers hanswer₁ _ ih =>
    cases hdeals₂ with
    | cons hanswer₂ hrest₂ =>
      rw [List.flatMap_cons] at hrefused
      have hstep := fun p hp => hrefused p (List.mem_append_left _ hp)
      obtain ⟨heq₁, haway₁⟩ := h₁.answers (fun p hp => (hstep p hp).1) hanswer₁
      obtain ⟨heq₂, haway₂⟩ := h₂.answers (fun p hp => (hstep p hp).2) hanswer₂
      obtain ⟨hanswer, hnext⟩ := halike.turnAway step
      rw [← heq₁, ← heq₂] at hanswer hnext
      obtain ⟨hanswers, hend⟩ := ih hrest₂ haway₁ haway₂ hnext fun p hp =>
        hrefused p (List.mem_append_right _ hp)
      exact ⟨by rw [show answer = _ from hanswer, hanswers], hend⟩

/-- A session without calls turns away a peer whose messages are refused. -/
theorem turnsAway_start (agent : Agent) (backend : Backend) :
    (Session.start agent backend).TurnsAway agent backend :=
  ⟨by simp [Session.start], ⟨agent.stopped, rfl⟩, rfl⟩

/-- **A peer without the secret learns nothing and changes nothing.** Two agents serve different
tasks with different secrets, and differ in what is stored, what was created and which resources
there are; their submissions may be anything. A peer presents neither secret, in any sequence of
calls that overlap, are dropped, and settle on whatever schedule, and of requests. Then both answer
every step, all that they answer is the same, and in the end what was created and what is stored is
as it was. And an agent whose secret is empty accepts no message at all. This takes it that no two
of the tokens have the same digest. -/
theorem stranger_learns_and_changes_nothing (agent₁ agent₂ : Agent) (backend₁ backend₂ : Backend)
    (library₁ library₂ : Library) (hstopped : agent₁.stopped = agent₂.stopped)
    (steps : List PeerStep)
    (hsecret : ∀ p ∈ steps.flatMap PeerStep.presented,
      p ≠ "" → p ≠ agent₁.token.secret ∧ p ≠ agent₂.token.secret)
    (hdigest : Token.NoCollision
      (agent₁.token.secret :: agent₂.token.secret :: steps.flatMap PeerStep.presented)) :
    (∃ answers t, (start agent₁ backend₁).Deals library₁ steps answers t) ∧
    (∃ answers t, (start agent₂ backend₂).Deals library₂ steps answers t) ∧
    (∀ answers₁ t₁ answers₂ t₂, (start agent₁ backend₁).Deals library₁ steps answers₁ t₁ →
      (start agent₂ backend₂).Deals library₂ steps answers₂ t₂ →
      answers₁ = answers₂ ∧ t₁.calls = t₂.calls ∧
        (t₁.agent.created = agent₁.created ∧ t₁.backend = backend₁) ∧
        t₂.agent.created = agent₂.created ∧ t₂.backend = backend₂) ∧
    ∀ agent : Agent, agent.token.secret = "" → ∀ presented, Token.NoCollision ["", presented] →
      agent.token.refusal? presented ≠ none := by
  have hrefused : ∀ p ∈ steps.flatMap PeerStep.presented,
      agent₁.token.Refuses p ∧ agent₂.token.Refuses p := by
    intro p hp
    have hmem : p ∈ agent₁.token.secret :: agent₂.token.secret ::
        steps.flatMap PeerStep.presented := by simp [hp]
    exact ⟨Token.refuses_of_ne (fun hne => (hsecret p hp hne).1) (hdigest p hmem _ (by simp)),
      Token.refuses_of_ne (fun hne => (hsecret p hp hne).2) (hdigest p hmem _ (by simp))⟩
  refine ⟨exists_deals .., exists_deals .., ?_, ?_⟩
  · intro answers₁ t₁ answers₂ t₂ hdeals₁ hdeals₂
    have haway₁ := turnsAway_start agent₁ backend₁
    have haway₂ := turnsAway_start agent₂ backend₂
    obtain ⟨hanswers, halike⟩ := hdeals₁.alike hdeals₂ haway₁ haway₂ ⟨rfl, hstopped⟩ hrefused
    obtain ⟨-, ⟨stopped₁, hagent₁⟩, hbackend₁⟩ :=
      hdeals₁.turnsAway haway₁ fun p hp => (hrefused p hp).1
    obtain ⟨-, ⟨stopped₂, hagent₂⟩, hbackend₂⟩ :=
      hdeals₂.turnsAway haway₂ fun p hp => (hrefused p hp).2
    exact ⟨hanswers, halike.calls, ⟨by rw [hagent₁], hbackend₁⟩, by rw [hagent₂], hbackend₂⟩
  · intro agent hempty presented hcollision haccepted
    have hrefuses : agent.token.Refuses presented := by
      refine Token.refuses_of_ne (fun hne => by rwa [hempty]) fun heq => ?_
      rw [hempty] at heq ⊢
      exact hcollision presented (by simp) "" (by simp) heq
    rw [Token.Refuses, haccepted] at hrefuses
    cases hrefuses

/-- One agent has created a task and has a resource, the other has neither. A peer that guesses, and
then presents nothing, cannot tell which is which. -/
theorem stranger_cannot_tell_two_agents_apart :
    let agent₁ : Agent := ⟨⟨"session", "parent"⟩, ⟨"left"⟩, 1, [⟨"a", [], []⟩], false⟩
    let agent₂ : Agent := ⟨⟨"other", "task"⟩, ⟨"right"⟩, 10, [], false⟩
    let library₁ : Library := .memory (.ofList [("key", [[1, 2]])])
    let steps : List PeerStep := [
      .events [.openCreate "call", .createItem "call" (.ok (.init "guess" none))],
      .getResource ⟨"guess", "key"⟩, .finalize ⟨""⟩]
    ∃ (answers : List PeerAnswer) (t₁ t₂ : Session),
      (start agent₁ (.ofStore (.empty 0))).Deals library₁ steps answers t₁ ∧
      (start agent₂ (.ofStore (.empty 7))).Deals .empty steps answers t₂ ∧
      t₁.agent.created = agent₁.created := by
  intro agent₁ agent₂ library₁ steps
  obtain ⟨⟨answers₁, t₁, h₁⟩, ⟨answers₂, t₂, h₂⟩, hall, -⟩ :=
    stranger_learns_and_changes_nothing agent₁ agent₂ (.ofStore (.empty 0)) (.ofStore (.empty 7))
      library₁ .empty rfl steps (by decide) (by decide +kernel)
  obtain ⟨rfl, -, ⟨hcreated, -⟩, -⟩ := hall _ _ _ _ h₁ h₂
  exact ⟨answers₁, t₁, t₂, h₁, h₂, hcreated⟩

end Session

end Sidecar
