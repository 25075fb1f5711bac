import Sidecar.Proofs.Ingestion.Outcome
import Sidecar.Proofs.Session.Schedule

/-!
# A result call is one pass over its stream

`Agent.sendSequentially` is what a result call comes to when nothing else happens: it reads the
stream once, element by element, and has neither a queue nor a submission beside it. The first
element that decides the call ends it; if the last message comes first, the result is stored whole
or not at all. `BringsResult` spells out the streams on which it does: a key, the data chunk by
chunk, the end of the data and the last message, with anything after them.

A call that runs alone agrees with it. Whatever order the call and its submission move in, they come
to rest, and they rest only with that outcome and that store
(`ResultCall.sendResult_eq_sendSequentially`).
-/

namespace Sidecar

/-- The outcome of a result call whose stream is read in one pass, with the store it leaves. -/
def Agent.sendSequentially (agent : Agent) (store : Store)
    (items : List (Except Cause ResultRequest)) : ResultResult × Store :=
  match scanResults agent.token .idle .empty items with
  | .undecided _ _ => (.error (.violation (.unexpectedEnd "SendResult")), store)
  | .decided result => (result, store)
  | .complete (d, token) =>
    if store.Accepts d then (.ok .ok, store.addResult d.key (d.stored agent.identity))
    else (.ok (.error token resultFailed), store)

/-! ## Streams that bring a whole result -/

/-- What an element of a stream asks for, if it is a request with the right token and with its
unions set. -/
def ResultStep.asked? (token : Token) : Except Cause ResultRequest → Option ResultStep
  | .error _ => none
  | .ok request =>
    match token.refusal? request.token with
    | some _ => none
    | none => ofKind? request.kind

/-- Before anything else the stream brings a whole result: its key, its data chunk by chunk, the end
of the data, and a last message that presents `echo`. -/
def BringsResult (token : Token) (items : List (Except Cause ResultRequest)) (key : String)
    (chunks : List Bytes) (echo : String) : Prop :=
  ∃ front last rest, items = front ++ .ok last :: rest ∧
    front.map (ResultStep.asked? token) =
      (.key key :: (chunks.map .data ++ [.dataComplete]) : List ResultStep).map some ∧
    ResultStep.asked? token (.ok last) = some .lastResult ∧ last.token = echo

section Scanning

variable {token : Token} {items : List (Except Cause ResultRequest)} {d d' : Deposit}
  {echo : String}

/-- An element that asks for nothing decides the call, and not with success. -/
theorem examineIngestion_of_asked_eq_none {item : Except Cause ResultRequest}
    (h : ResultStep.asked? token item = none) (state : IngestionState) (d : Deposit) :
    ∃ result, examineIngestion token state d item = .decided result ∧ result ≠ .ok .ok := by
  cases item with
  | error cause => exact ⟨_, rfl, by simp⟩
  | ok request =>
    simp only [ResultStep.asked?] at h
    simp only [examineIngestion]
    cases htoken : token.refusal? request.token with
    | some refusal => exact ⟨_, rfl, by simp [ResultReply.error, ResultReply.ok]⟩
    | none =>
      simp only [htoken] at h
      simp only [h]
      exact ⟨_, rfl, by simp⟩

/-- An element that asks for something out of its turn decides the call; in its turn it is taken
into the deposit, or completes it. -/
theorem examineIngestion_of_asked_eq_some {step : ResultStep} {item : Except Cause ResultRequest}
    (h : ResultStep.asked? token item = some step) (state : IngestionState) (d : Deposit) :
    match resultIngestion.next? state step.event with
    | none => ∃ result, examineIngestion token state d item = .decided result ∧ result ≠ .ok .ok
    | some next =>
      if step = .lastResult then
        ∃ request, item = .ok request ∧
          examineIngestion token state d item = .complete (d, request.token)
      else examineIngestion token state d item = .undecided next (d.add step) := by
  cases item with
  | error cause => cases h
  | ok request =>
    simp only [ResultStep.asked?] at h
    cases htoken : token.refusal? request.token with
    | some refusal => simp [htoken] at h
    | none =>
      simp only [htoken] at h
      simp only [examineIngestion, htoken, h]
      cases hnext : resultIngestion.next? state step.event with
      | none => exact ⟨_, rfl, by simp⟩
      | some next => cases step <;> simp

/-- What completes a deposit: the last message after the end of the data, or else something in its
turn and then the rest of the stream. -/
theorem scanResults_cons_eq_complete_iff {state : IngestionState}
    {item : Except Cause ResultRequest} :
    scanResults token state d (item :: items) = .complete (d', echo) ↔
      (state = .awaitingEnd ∧ d' = d ∧ ∃ last, item = .ok last ∧
        ResultStep.asked? token item = some .lastResult ∧ last.token = echo) ∨
      ∃ step next, ResultStep.asked? token item = some step ∧ step ≠ .lastResult ∧
        resultIngestion.next? state step.event = some next ∧
        scanResults token next (d.add step) items = .complete (d', echo) := by
  simp only [scanResults, scanStream]
  cases hasked : ResultStep.asked? token item with
  | none =>
    obtain ⟨result, hexamine, -⟩ := examineIngestion_of_asked_eq_none hasked state d
    simp [hexamine]
  | some step =>
    have hexamine := examineIngestion_of_asked_eq_some hasked state d
    cases hnext : resultIngestion.next? state step.event with
    | none =>
      obtain ⟨result, hexamine, -⟩ := by simpa only [hnext] using hexamine
      cases step <;> cases state <;>
        simp_all [resultIngestion, ResultStep.event]
    | some next =>
      simp only [hnext] at hexamine
      by_cases hlast : step = .lastResult
      · subst hlast
        obtain ⟨request, rfl, hexamine⟩ := by simpa using hexamine
        obtain rfl : state = .awaitingEnd := by
          cases state <;> simp_all [resultIngestion, ResultStep.event]
        simp only [hexamine]
        simp [eq_comm]
      · simp only [hlast, if_false] at hexamine
        simp [hexamine, hlast, hnext]

/-- After the end of the data nothing but the last message completes the deposit. -/
theorem scanResults_awaitingEnd_eq_complete_iff :
    scanResults token .awaitingEnd d items = .complete (d', echo) ↔
      d' = d ∧ ∃ last rest, items = .ok last :: rest ∧
        ResultStep.asked? token (.ok last) = some .lastResult ∧ last.token = echo := by
  cases items with
  | nil => simp [scanResults, scanStream]
  | cons item items =>
    rw [scanResults_cons_eq_complete_iff]
    constructor
    · rintro (⟨-, rfl, last, rfl, hasked, hecho⟩ | ⟨step, next, -, hlast, hnext, -⟩)
      · exact ⟨rfl, last, items, rfl, hasked, hecho⟩
      · cases step <;> simp_all [resultIngestion, ResultStep.event]
    · rintro ⟨rfl, last, rest, heq, hasked, hecho⟩
      cases heq
      exact .inl ⟨rfl, rfl, last, rfl, hasked, hecho⟩

/-- Where data may come, chunks and the end of the data come before the last message, and the
deposit grows by the chunks. -/
theorem scanResults_receivingChunks_eq_complete_iff :
    scanResults token .receivingChunks d items = .complete (d', echo) ↔
      ∃ (chunks : List Bytes) (front : List (Except Cause ResultRequest)) (last : ResultRequest)
          (rest : List (Except Cause ResultRequest)), items = front ++ .ok last :: rest ∧
        front.map (ResultStep.asked? token) =
          (chunks.map .data ++ [.dataComplete] : List ResultStep).map some ∧
        ResultStep.asked? token (.ok last) = some .lastResult ∧ last.token = echo ∧
        d' = ⟨d.key, d.payload ++ chunks.flatten⟩ := by
  induction items generalizing d with
  | nil => simp [scanResults, scanStream]
  | cons item items ih =>
    rw [scanResults_cons_eq_complete_iff]
    constructor
    · rintro (⟨hstate, -⟩ | ⟨step, next, hasked, hlast, hnext, hrest⟩)
      · cases hstate
      · cases step with
        | key key => cases hnext
        | lastResult => cases hnext
        | data data =>
          cases hnext
          obtain ⟨chunks, front, last, rest, rfl, hfront, hlast, hecho, rfl⟩ := ih.1 hrest
          exact ⟨data :: chunks, item :: front, last, rest, rfl, by simp [hasked, hfront], hlast,
            hecho, by simp [Deposit.add]⟩
        | dataComplete =>
          cases hnext
          obtain ⟨rfl, last, rest, rfl, hlast, hecho⟩ :=
            scanResults_awaitingEnd_eq_complete_iff.1 hrest
          exact ⟨[], [item], last, rest, rfl, by simp [hasked], hlast, hecho, by simp⟩
    · rintro ⟨chunks, front, last, rest, heq, hfront, hlast, hecho, rfl⟩
      cases front with
      | nil => simp at hfront
      | cons first front =>
        cases heq
        refine .inr ?_
        cases chunks with
        | nil =>
          simp only [List.map_nil, List.nil_append, List.map_cons, List.cons.injEq,
            List.map_eq_nil_iff] at hfront
          obtain ⟨hfirst, rfl⟩ := hfront
          refine ⟨.dataComplete, .awaitingEnd, hfirst, by simp, rfl, ?_⟩
          exact scanResults_awaitingEnd_eq_complete_iff.2
            ⟨by simp [Deposit.add], last, rest, rfl, hlast, hecho⟩
        | cons chunk chunks =>
          simp only [List.map_cons, List.cons_append, List.cons.injEq] at hfront
          refine ⟨.data chunk, .receivingChunks, hfront.1, by simp, rfl, ih.2 ?_⟩
          exact ⟨chunks, front, last, rest, rfl, hfront.2, hlast, hecho, by simp [Deposit.add]⟩

/-- The stream comes to a complete deposit exactly if it brings a whole result, and then the payload
is all its chunks in their order. -/
theorem scanResults_eq_complete_iff :
    scanResults token .idle .empty items = .complete (d, echo) ↔
      ∃ chunks, BringsResult token items d.key chunks echo ∧ d.payload = chunks.flatten := by
  cases items with
  | nil => simp [scanResults, scanStream, BringsResult]
  | cons item items =>
    rw [scanResults_cons_eq_complete_iff]
    constructor
    · rintro (⟨hstate, -⟩ | ⟨step, next, hasked, hlast, hnext, hrest⟩)
      · cases hstate
      · cases step with
        | key key =>
          cases hnext
          obtain ⟨chunks, front, last, rest, rfl, hfront, hlast, hecho, rfl⟩ :=
            scanResults_receivingChunks_eq_complete_iff.1 hrest
          exact ⟨chunks, ⟨item :: front, last, rest, rfl, by simp [hasked, hfront, Deposit.add],
            hlast, hecho⟩, rfl⟩
        | data data => cases hnext
        | dataComplete => cases hnext
        | lastResult => cases hnext
    · rintro ⟨chunks, ⟨front, last, rest, heq, hfront, hlast, hecho⟩, hpayload⟩
      cases front with
      | nil => simp at hfront
      | cons first front =>
        cases heq
        simp only [List.map_cons, List.cons.injEq] at hfront
        refine .inr ⟨.key d.key, .receivingChunks, hfront.1, by simp, rfl, ?_⟩
        refine scanResults_receivingChunks_eq_complete_iff.2
          ⟨chunks, front, last, rest, rfl, hfront.2, hlast, hecho, ?_⟩
        rw [← hpayload]
        rfl

/-- No element decides the call with success by itself. -/
theorem ne_ok_of_scanResults_eq_decided {state : IngestionState} {result : ResultResult}
    (h : scanResults token state d items = .decided result) : result ≠ .ok .ok := by
  induction items generalizing state d with
  | nil => cases h
  | cons item items ih =>
    simp only [scanResults, scanStream] at h
    cases hasked : ResultStep.asked? token item with
    | none =>
      obtain ⟨_, hexamine, hne⟩ := examineIngestion_of_asked_eq_none hasked state d
      simp only [hexamine, Verdict.decided.injEq] at h
      exact h ▸ hne
    | some step =>
      have hexamine := examineIngestion_of_asked_eq_some hasked state d
      cases hnext : resultIngestion.next? state step.event with
      | none =>
        obtain ⟨_, hexamine, hne⟩ := by simpa only [hnext] using hexamine
        simp only [hexamine, Verdict.decided.injEq] at h
        exact h ▸ hne
      | some next =>
        simp only [hnext] at hexamine
        by_cases hlast : step = .lastResult
        · obtain ⟨request, -, hexamine⟩ := by simpa only [hlast, if_true] using hexamine
          simp [hexamine] at h
        · simp only [hlast, if_false] at hexamine
          simp only [hexamine] at h
          exact ih h

end Scanning

/-! ## One pass -/

namespace Agent

variable (agent : Agent) (store : Store) {items : List (Except Cause ResultRequest)}

/-- A stream that brings a whole result has it stored, unless it is too long. -/
theorem sendSequentially_of_bringsResult {key : String} {chunks : List Bytes} {echo : String}
    (h : BringsResult agent.token items key chunks echo) :
    agent.sendSequentially store items =
      if store.limit = 0 ∨ chunks.flatten.length ≤ store.limit then
        (.ok .ok, store.addResult key
          ⟨agent.identity.sessionId, agent.identity.taskId, chunks.flatten⟩)
      else (.ok (.error echo resultFailed), store) := by
  have hscan : scanResults agent.token .idle .empty items =
      .complete (⟨key, chunks.flatten⟩, echo) :=
    scanResults_eq_complete_iff.2 ⟨chunks, h, rfl⟩
  simp only [sendSequentially, hscan]
  rfl

/-- Any other stream fails, and nothing is stored. -/
theorem sendSequentially_of_not_bringsResult
    (h : ∀ key chunks echo, ¬ BringsResult agent.token items key chunks echo) :
    (agent.sendSequentially store items).1 ≠ .ok .ok ∧
      (agent.sendSequentially store items).2 = store := by
  unfold sendSequentially
  cases hscan : scanResults agent.token .idle .empty items with
  | undecided state d => exact ⟨by simp, rfl⟩
  | decided result => exact ⟨ne_ok_of_scanResults_eq_decided hscan, rfl⟩
  | complete found =>
    obtain ⟨d, echo⟩ := found
    obtain ⟨chunks, hbrings, -⟩ := scanResults_eq_complete_iff.1 hscan
    exact absurd hbrings (h _ _ _)

/-- What comes after the element that decides has no influence. -/
theorem sendSequentially_append (items more : List (Except Cause ResultRequest)) :
    (∃ state d, scanResults agent.token .idle .empty items = .undecided state d) ∨
      agent.sendSequentially store (items ++ more) = agent.sendSequentially store items := by
  have happend : scanResults agent.token .idle .empty (items ++ more) = _ :=
    scanStream_append (examineIngestion agent.token) items more .idle .empty
  rw [← scanResults] at happend
  unfold sendSequentially
  rw [happend]
  cases scanResults agent.token .idle .empty items with
  | undecided state d => exact .inl ⟨state, d, rfl⟩
  | decided result => exact .inr rfl
  | complete found => exact .inr rfl

end Agent

/-! ## A call that runs alone -/

namespace ResultCall

/-- A call whose whole stream has arrived. -/
def onStream (items : List (Except Cause ResultRequest)) : ResultCall :=
  { start with inbox := ⟨items.map .ofItem, true⟩ }

variable {agent : Agent} {store : Store} {items : List (Except Cause ResultRequest)}

/-- A call that begins alone is under way. -/
theorem stage_onStream (agent : Agent) (store : Store) (items : List (Except Cause ResultRequest)) :
    Stage agent store true (scanResults agent.token .idle .empty items)
      (agent, .ofStore store, onStream items) :=
  .underway ⟨serves_start agent.identity _, items, rfl, rfl⟩
    (by simp [HasStored, onStream, start]) trivial

/-- An outcome of a call that runs alone on a whole stream is the sequential one. -/
theorem Outcome.eq_sendSequentially {agent' : Agent} {backend' : Backend} {result : ResultResult}
    (h : Outcome agent store true (scanResults agent.token .idle .empty items)
      (agent', backend', result)) :
    (agent', backend', result) = (agent, .ofStore (agent.sendSequentially store items).2,
      (agent.sendSequentially store items).1) := by
  unfold Agent.sendSequentially
  cases h with
  | decided hdecides =>
    revert hdecides
    generalize scanResults agent.token .idle .empty items = verdict
    rintro (_ | _) <;> rfl
  | stored hverdict haccepts =>
    rw [hverdict]
    simp [haccepts]
  | refused hverdict haccepts =>
    rw [hverdict]
    simp [haccepts]

/-- However a call that runs alone on a whole stream comes to rest, it is over with the sequential
outcome. -/
theorem settles_eq_sendSequentially (hrun : agent.stopped = false) {t : Session}
    (hsettles : (Session.alone agent (.ofStore store) (.result (onStream items))).Settles t) :
    t = Session.alone agent (.ofStore (agent.sendSequentially store items).2)
      (.result (.ended (agent.sendSequentially store items).1)) := by
  have hcall : (Session.alone agent (.ofStore store) (.result (onStream items))).calls[0]? =
      some ("", .result (onStream items)) := rfl
  obtain ⟨_, hcalls, c, rfl, hstage⟩ := hsettles.comes.single
    (motive := fun (a, b, call) => ∃ c, call = .result c ∧
      Stage agent store true (scanResults agent.token .idle .empty items) (a, b, c))
    hcall
    (fun j c hj hc => by
      cases j with
      | zero => exact absurd rfl hj
      | succ j => cases hc)
    ⟨_, rfl, stage_onStream agent store items⟩
    (by
      rintro a b _ _ ⟨c, rfl, hstage⟩ hmove
      cases hmove with
      | result hmove => exact ⟨_, rfl, hstage.moves hrun hmove⟩)
    (by
      rintro a b _ ⟨c, rfl, hstage⟩
      exact hstage.frame hrun)
  have hidle : ∀ r, ¬ c.Moves t.agent t.backend r := fun r hmove =>
    hsettles.idle _ (.call (i := 0) (by rw [hcalls]; rfl) (.result hmove))
  rcases hstage.rests hrun hidle with ⟨result, rfl, houtcome⟩ | ⟨-, -, hended, -⟩
  · obtain ⟨agent', backend', calls'⟩ := t
    have hsequential := houtcome.eq_sendSequentially
    simp only [Prod.mk.injEq] at hsequential
    obtain ⟨rfl, rfl, rfl⟩ := hsequential
    cases hcalls
    rfl
  · cases hended

/-- A result call that runs alone over a store has the outcome of one pass over its stream, and
leaves the store that one pass leaves. Whatever order the call and its submission move in, they do
not go on for ever, and they come to rest nowhere else. A stream that brings a whole result has its
chunks stored under its key, in place of what was there, unless they are too long together; any
other stream stores nothing. What comes after the element that decides has no influence. -/
theorem sendResult_eq_sendSequentially (identity : Identity) (token : Token) (capacity : Nat)
    (created : List CreatedTask) (store : Store) (items : List (Except Cause ResultRequest)) :
    let agent : Agent := ⟨identity, token, capacity, created, false⟩
    let (result, store') := agent.sendSequentially store items
    let session := agent.sendResult (.ofStore store) (items.map .ofItem)
    let begun := Session.alone agent (.ofStore store) (.result (onStream items))
    (session.outcome? = some (.result result) ∧ session.agent = agent ∧
      session.backend = .ofStore store') ∧
    (∀ t, begun.Settles t → t = session) ∧
    (∀ schedule : Nat → Session, schedule 0 = begun →
      ∃ n, ¬ (schedule n).Moves (schedule (n + 1))) ∧
    (∀ key chunks echo, BringsResult token items key chunks echo →
      if store.limit = 0 ∨ chunks.flatten.length ≤ store.limit then
        result = .ok .ok ∧ store'.tasks = store.tasks ∧ store'.limit = store.limit ∧
          ∀ k, store'.results.get? k =
            if k = key then some ⟨identity.sessionId, identity.taskId, chunks.flatten⟩
            else store.results.get? k
      else result = .ok (.error echo resultFailed) ∧ store' = store) ∧
    ((∀ key chunks echo, ¬ BringsResult token items key chunks echo) →
      result ≠ .ok .ok ∧ store' = store) ∧
    ∀ more, (∃ state d, scanResults token .idle .empty items = .undecided state d) ∨
      agent.sendSequentially store (items ++ more) = (result, store') := by
  intro agent
  have hsettles : ∀ t, (Session.alone agent (.ofStore store) (.result (onStream items))).Settles t →
      t = Session.alone agent (.ofStore (agent.sendSequentially store items).2)
        (.result (.ended (agent.sendSequentially store items).1)) :=
    fun t => settles_eq_sendSequentially rfl
  have hbrings : ∀ key chunks echo, BringsResult token items key chunks echo → _ :=
    fun key chunks echo => Agent.sendSequentially_of_bringsResult agent store
  have hother : (∀ key chunks echo, ¬ BringsResult token items key chunks echo) → _ :=
    Agent.sendSequentially_of_not_bringsResult agent store
  have happend := Agent.sendSequentially_append agent store items
  generalize agent.sendSequentially store items = pass at hsettles hbrings hother happend ⊢
  obtain ⟨result, store'⟩ := pass
  have hsession : agent.sendResult (.ofStore store) (items.map .ofItem) = _ :=
    hsettles _ (Session.settles_run _)
  refine ⟨?_, ?_, fun schedule _ => Session.exists_not_moves schedule, ?_, hother, happend⟩
  · rw [hsession]
    exact ⟨rfl, rfl, rfl⟩
  · intro t h
    rw [hsession, hsettles t h]
  · intro key chunks echo h
    have hpass := hbrings key chunks echo h
    by_cases hfits : store.limit = 0 ∨ chunks.flatten.length ≤ store.limit
    · rw [if_pos hfits] at hpass ⊢
      cases hpass
      exact ⟨rfl, rfl, rfl, fun k => Dict.get?_insert _ key _ k⟩
    · rw [if_neg hfits] at hpass ⊢
      cases hpass
      exact ⟨rfl, rfl⟩

end ResultCall

end Sidecar
