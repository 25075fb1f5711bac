import Sidecar.Proofs.Transport.Serving

/-!
# A connection that is cut

A `Conversation` is the header of a streaming call and a whole stream of requests for it, in order
and under the right token (`Script.Legal`). Only its last request completes the stream, so that a
stream that is cut before decides nothing by itself (`Grammar.Accepts.undecided`), and the end of
the input fails the call. The connection is answered with that failure and nothing is stored,
wherever the bytes of the conversation are cut (`Connection.serve_cut`).
-/

namespace Sidecar

open Wire

/-! ## Complete streams -/

namespace Grammar

variable {σ ε α β ρ γ ι : Type} (grammar : Grammar σ ε)

/-- The state after some events, if each of them is in its turn. -/
def run? : σ → List ε → Option σ
  | state, [] => some state
  | state, event :: events => grammar.next? state event >>= fun next => run? next events

/-- A complete stream: each element asks for a step, and the steps lead from start to end. -/
def Accepts (asked? : ι → Option α) (event : α → ε) (items : List ι) : Prop :=
  ∃ (steps : List α) (last : σ), items.map asked? = steps.map some ∧
    grammar.run? grammar.start (steps.map event) = some last ∧ grammar.isTerminal last = true

variable {grammar} {asked? : ι → Option α} {event : α → ε} {examine : σ → β → ι → Verdict σ β ρ γ}

/-- A step that is in its turn decides nothing unless it leads to the end, and after the end no step
is in its turn. -/
structure DecidesLast (grammar : Grammar σ ε) (asked? : ι → Option α) (event : α → ε)
    (examine : σ → β → ι → Verdict σ β ρ γ) : Prop where
  next?_of_isTerminal : ∀ state e, grammar.isTerminal state = true → grammar.next? state e = none
  goes_on : ∀ state asked item step next, asked? item = some step →
    grammar.next? state (event step) = some next → grammar.isTerminal next = false →
      ∃ asked', examine state asked item = .undecided next asked'

/-- Of elements that are in order, those before the last one decide nothing. -/
theorem DecidesLast.scanStream_undecided (h : grammar.DecidesLast asked? event examine)
    {before after : List ι} {steps : List α}
    (hsteps : (before ++ after).map asked? = steps.map some) {state last : σ}
    (hrun : grammar.run? state (steps.map event) = some last) (hne : after ≠ []) (asked : β) :
    ∃ state' asked', scanStream examine state asked before = .undecided state' asked' := by
  induction before generalizing steps state asked with
  | nil => exact ⟨state, asked, rfl⟩
  | cons item before ih =>
    match steps, hsteps with
    | step :: steps, hsteps =>
      rw [List.cons_append, List.map_cons, List.map_cons, List.cons.injEq] at hsteps
      rw [List.map_cons, run?, Option.bind_eq_bind, Option.bind_eq_some_iff] at hrun
      obtain ⟨next, hnext, hrest⟩ := hrun
      have hgoes : grammar.isTerminal next = false := by
        rw [Bool.eq_false_iff]
        intro hterminal
        -- Elements are left over, so that another step would have to follow the end.
        match steps, hsteps.2 with
        | [], hnil => simp [hne] at hnil
        | step' :: steps, _ => simp [run?, h.next?_of_isTerminal next _ hterminal] at hrest
      obtain ⟨asked', hitem⟩ := h.goes_on state asked item step next hsteps.1 hnext hgoes
      rw [scanStream, hitem]
      exact ih hsteps.2 hrest asked'

/-- A complete stream that is cut before its last element decides nothing. -/
theorem Accepts.undecided {before after : List ι}
    (haccepts : grammar.Accepts asked? event (before ++ after))
    (h : grammar.DecidesLast asked? event examine) (hne : after ≠ []) (asked : β) :
    ∃ state asked', scanStream examine grammar.start asked before = .undecided state asked' := by
  obtain ⟨steps, last, hsteps, hrun, -⟩ := haccepts
  exact h.scanStream_undecided hsteps hrun hne asked

end Grammar

/-- What an element of a stream asks for, if it is a request with the right token and with its
unions set. -/
def CreateStep.asked? (token : Token) : Except Cause CreateRequest → Option CreateStep
  | .error _ => none
  | .ok request =>
    match token.refusal? request.token with
    | some _ => none
    | none => ofKind? request.kind

/-- The stream of the script is complete: its requests have the right token and their unions set,
they are in order, and they come to the end of the order. -/
def Script.Legal (token : Token) : Script → Prop
  | create items => taskCreation.Accepts (CreateStep.asked? token) CreateStep.event items
  | result items => resultIngestion.Accepts (ResultStep.asked? token) ResultStep.event items

/-- Of the requests of a creation stream, the last task decides. -/
theorem taskCreation_decidesLast (token : Token) :
    taskCreation.DecidesLast (CreateStep.asked? token) CreateStep.event
      (examineCreation token) where
  next?_of_isTerminal state _ h := by
    obtain rfl := of_decide_eq_true h
    rfl
  goes_on state b item step next hasked hnext hgoes := by
    have hstep : step ≠ .lastTask := fun h =>
      of_decide_eq_false hgoes ((next?_eq_terminal_iff hnext).2 h)
    cases item with
    | error cause => cases hasked
    | ok request =>
      simp only [CreateStep.asked?] at hasked
      cases htoken : token.refusal? request.token with
      | some refusal => simp [htoken] at hasked
      | none =>
        simp only [htoken] at hasked
        simp only [examineCreation, examineRequest, htoken, hasked, hnext]
        cases step with
        | lastTask => exact absurd rfl hstep
        | init | header | data | dataComplete => exact ⟨_, rfl⟩

/-- Of the requests of a result stream, the last result decides. -/
theorem resultIngestion_decidesLast (token : Token) :
    resultIngestion.DecidesLast (ResultStep.asked? token) ResultStep.event
      (examineIngestion token) where
  next?_of_isTerminal state _ h := by
    obtain rfl := of_decide_eq_true h
    rfl
  goes_on state d item step next hasked hnext hgoes := by
    have hstep : step ≠ .lastResult := by
      rintro rfl
      cases state <;> simp [resultIngestion, ResultStep.event] at hnext
      exact of_decide_eq_false hgoes hnext.symm
    have hexamine := examineIngestion_of_asked_eq_some hasked state d
    simp only [hnext, if_neg hstep] at hexamine
    exact ⟨_, hexamine⟩

/-! ## Streams that are cut -/

/-- The stream of the script is a complete one that is cut before its last request: it ends there,
or breaks. -/
def Script.CutShort (token : Token) : Script → Prop
  | create items => ∃ before after tail, Script.Legal token (.create (before ++ after)) ∧
      after ≠ [] ∧ items = before ++ Connection.lastItems tail
  | result items => ∃ before after tail, Script.Legal token (.result (before ++ after)) ∧
      after ≠ [] ∧ items = before ++ Connection.lastItems tail

namespace Script

/-- The errors that a stream ends with that is cut. -/
def cutErrors : List CallError :=
  [.cancelled, .violation (.unexpectedEnd "CreateTask"), .violation (.unexpectedEnd "SendResult"),
    .transport unreadableFrame]

variable {agent : Agent} {script : Script}

/-- One pass over a creation stream that is cut ends with an error and stores nothing. -/
theorem createSequentially_of_cutShort (store : Store) {items : List (Except Cause CreateRequest)}
    (h : CutShort agent.token (.create items)) :
    ∃ e ∈ cutErrors, agent.createSequentially store items = (.error e, agent, store) := by
  obtain ⟨before, after, tail, hlegal, hne, rfl⟩ := h
  obtain ⟨state, b, hscan⟩ := hlegal.undecided (taskCreation_decidesLast _) hne Batch.empty
  have hbefore : scanRequests agent.token .idle .empty before = .undecided state b := hscan
  by_cases htail : tail = .broken
  · have hwhole : scanRequests agent.token .idle .empty (before ++ [.error unreadableFrame]) =
        .decided (.error (.transport unreadableFrame)) := scanStream_concat hbefore _
    exact ⟨.transport unreadableFrame, by simp [cutErrors], by
      simp [Agent.createSequentially, Connection.lastItems, htail, hwhole]⟩
  · exact ⟨.violation (.unexpectedEnd "CreateTask"), by simp [cutErrors], by
      simp [Agent.createSequentially, Connection.lastItems, htail, hbefore]⟩

/-- One pass over a result stream that is cut ends with an error and stores nothing. -/
theorem sendSequentially_of_cutShort (store : Store) {items : List (Except Cause ResultRequest)}
    (h : CutShort agent.token (.result items)) :
    ∃ e ∈ cutErrors, agent.sendSequentially store items = (.error e, store) := by
  obtain ⟨before, after, tail, hlegal, hne, rfl⟩ := h
  obtain ⟨state, d, hscan⟩ := hlegal.undecided (resultIngestion_decidesLast _) hne Deposit.empty
  have hbefore : scanResults agent.token .idle .empty before = .undecided state d := hscan
  by_cases htail : tail = .broken
  · have hwhole : scanResults agent.token .idle .empty (before ++ [.error unreadableFrame]) =
        .decided (.error (.transport unreadableFrame)) := scanStream_concat hbefore _
    exact ⟨.transport unreadableFrame, by simp [cutErrors], by
      simp [Agent.sendSequentially, Connection.lastItems, htail, hwhole]⟩
  · exact ⟨.violation (.unexpectedEnd "SendResult"), by simp [cutErrors], by
      simp [Agent.sendSequentially, Connection.lastItems, htail, hbefore]⟩

/-- A call whose stream is cut ends with an error, and changes neither the agent nor the store. -/
theorem ending_of_cutShort (store : Store) (h : script.CutShort agent.token) :
    ∃ e ∈ cutErrors, ∃ outcome, (script.ending agent store).outcome? = some outcome ∧
      Connection.report outcome = .failed e.message ∧
      (script.ending agent store).agent = agent ∧
      (script.ending agent store).backend = .ofStore store := by
  by_cases hstop : agent.stopped = true
  · have hending : script.ending agent store = Session.alone agent (.ofStore store)
        script.cancelled := if_pos hstop
    rw [hending]
    refine ⟨.cancelled, by simp [cutErrors], ?_⟩
    cases script <;> exact ⟨_, rfl, rfl, rfl, rfl⟩
  · have hending : script.ending agent store =
        Session.alone { agent with created := agent.created ++ script.created agent store }
          (.ofStore (script.stored agent store)) (script.answered agent store) := if_neg hstop
    rw [hending]
    cases script with
    | create items =>
      obtain ⟨e, he, hpass⟩ := createSequentially_of_cutShort store h
      have hkept : (agent.createSequentially store items).2 = _ := createSequentially_eq items
      have hanswered : (create items).answered agent store = .create (.ended (.error e)) := by
        rw [answered, hpass]
      rw [hpass, Prod.mk.injEq] at hkept
      rw [hanswered]
      exact ⟨e, he, .create (.error e), rfl, rfl, hkept.1.symm,
        congrArg Backend.ofStore hkept.2.symm⟩
    | result items =>
      obtain ⟨e, he, hpass⟩ := sendSequentially_of_cutShort store h
      obtain ⟨hcreated, hstored⟩ : _ ∧ (agent.sendSequentially store items).2 = _ :=
        sendSequentially_eq items
      have hanswered : (result items).answered agent store = .result (.ended (.error e)) := by
        rw [answered, hpass]
      rw [hpass] at hstored
      rw [hanswered, hcreated, List.append_nil]
      exact ⟨e, he, .result (.error e), rfl, rfl, rfl, congrArg Backend.ofStore hstored.symm⟩

/-- The errors are short enough to be reported. -/
theorem fits_of_mem_cutErrors {e : CallError} (h : e ∈ cutErrors) :
    Connection.fits (.failed e.message) = true := by
  revert e
  decide

end Script

namespace Connection

/-! ## Connections that are cut -/

/-- A whole streaming call as it comes in on a connection: the header in the first frame, and a
complete stream of requests in the others. -/
structure Conversation (token : Token) where
  first : Bytes
  bodies : List Bytes
  short : ∀ b ∈ first :: bodies, b.length ≤ Frame.maxLength
  header : CallHeader
  reads : decode? first = some header
  script : Script
  brings : script? header bodies .ended = some script
  legal : script.Legal token

/-- The conversation of a client that creates tasks. -/
def Conversation.ofCreate {token : Token} (requests : List CreateRequest)
    (hshort : ∀ b ∈ encode CallHeader.createTask :: requests.map encode,
      b.length ≤ Frame.maxLength)
    (hlegal : (Script.create (requests.map .ok)).Legal token) : Conversation token where
  first := encode CallHeader.createTask
  bodies := requests.map encode
  short := hshort
  header := .createTask
  reads := CallHeader.roundTrips.decode_encode _ trivial
  script := .create (requests.map .ok)
  brings := by simp [script?, lastItems, map_item_encode CreateRequest.roundTrips]
  legal := hlegal

/-- The conversation of a client that hands in a result. -/
def Conversation.ofResult {token : Token} (requests : List ResultRequest)
    (hshort : ∀ b ∈ encode CallHeader.sendResult :: requests.map encode,
      b.length ≤ Frame.maxLength)
    (hlegal : (Script.result (requests.map .ok)).Legal token) : Conversation token where
  first := encode CallHeader.sendResult
  bodies := requests.map encode
  short := hshort
  header := .sendResult
  reads := CallHeader.roundTrips.decode_encode _ trivial
  script := .result (requests.map .ok)
  brings := by simp [script?, lastItems, map_item_encode ResultRequest.roundTrips]
  legal := hlegal

/-- The bytes of the conversation. -/
def Conversation.bytes {token : Token} (c : Conversation token) : Bytes :=
  (c.first :: c.bodies).flatMap Frame.encode

/-- Where frames are missing, the script that the others bring is cut short. -/
theorem exists_cutShort {token : Token} {header : CallHeader} {before after : List Bytes}
    {script : Script} (hscript : script? header (before ++ after) .ended = some script)
    (hlegal : script.Legal token) (hne : after ≠ []) (tail : Frame.Tail) :
    ∃ cut, script? header before tail = some cut ∧ cut.CutShort token := by
  cases header with
  | createTask =>
    obtain rfl := Option.some.inj hscript
    refine ⟨_, rfl, before.map item, after.map item, tail, ?_, by simpa using hne, rfl⟩
    simpa [lastItems] using hlegal
  | sendResult =>
    obtain rfl := Option.some.inj hscript
    refine ⟨_, rfl, before.map item, after.map item, tail, ?_, by simpa using hne, rfl⟩
    simpa [lastItems] using hlegal
  | getResource | getCommon | getDirect | finalize => cases hscript

/-- A connection that is cut within its first frame is not answered, and changes nothing. -/
theorem serve_take_encode {first : Bytes} (hfirst : first.length ≤ Frame.maxLength) {n : Nat}
    (hn : n < (Frame.encode first).length) (host : Host) :
    ∃ served, serve host .closed ((Frame.encode first).take n) = ([], served, host) ∧
      (served = .ok ∨ served = .badHeader) := by
  obtain ⟨tail, hnext, htail⟩ := Frame.next_take_encode hfirst hn
  have hframes : Frame.frames true (([] : List Bytes).flatMap Frame.encode ++
      (Frame.encode first).take n) = ([], tail) :=
    Frame.frames_flatMap_encode_append (List.forall_mem_nil _) hnext
  rw [List.flatMap_nil, List.nil_append] at hframes
  rw [serve, decide_eq_true rfl, hframes]
  cases tail with
  | waiting => exact absurd rfl htail
  | ended => exact ⟨.ok, rfl, .inl rfl⟩
  | broken => exact ⟨.badHeader, rfl, .inr rfl⟩

/-- A connection that brings a script that is cut short gets the failure of the call in a frame. -/
theorem serve_of_cutShort {bytes first : Bytes} {bodies : List Bytes} {tail : Frame.Tail}
    (hframes : Frame.frames true bytes = (first :: bodies, tail)) (htail : tail ≠ .waiting)
    {header : CallHeader} (hheader : decode? first = some header) {cut : Script}
    (hscript : script? header bodies tail = some cut) {agent : Agent}
    (hcut : cut.CutShort agent.token) (store : Store) (library : Library) :
    let host : Host := ⟨agent, .ofStore store, library⟩
    ∃ e ∈ Script.cutErrors, serve host .closed bytes = ([.failed e.message], .ok, host) ∧
      ∀ t, (cut.begun agent store).Settles t →
        t.outcome?.map report = some (.failed e.message) ∧ t.agent = agent ∧
          t.backend = .ofStore store := by
  intro host
  obtain ⟨e, he, outcome, houtcome, hreport, hagent, hbackend⟩ :=
    Script.ending_of_cutShort store hcut
  obtain ⟨outcome', houtcome', hserve⟩ :=
    serve_of_script hframes htail hheader hscript agent store library
  rw [Script.alone_eq_ending] at houtcome' hserve
  obtain rfl : outcome = outcome' := Option.some.inj (houtcome.symm.trans houtcome')
  have hkept : host.after (cut.ending agent store) = host := by
    rw [Host.after, hagent, hbackend]
  rw [hreport, if_pos (Script.fits_of_mem_cutErrors he), if_pos (Script.fits_of_mem_cutErrors he),
    hkept] at hserve
  refine ⟨e, he, hserve, fun t ht => ?_⟩
  rw [Script.settles_eq_ending ht, houtcome]
  exact ⟨congrArg some hreport, hagent, hbackend⟩

/-- A conversation that is cut commits nothing, wherever it is cut: serving what is left of it comes
to an end, and leaves the agent and the store as they were. Where the cut is in the first frame,
nothing is answered. Where it is behind the first frame, exactly one frame is written, which says
that the call failed; and whatever order the call and its submission move in, they come to rest with
that failure and leave the agent and the store as they were. -/
theorem serve_cut (agent : Agent) (store : Store) (library : Library)
    (c : Conversation agent.token) (n : Nat) (hn : n < c.bytes.length) :
    let host : Host := ⟨agent, .ofStore store, library⟩
    (n < (Frame.encode c.first).length →
      ∃ served, serve host .closed (c.bytes.take n) = ([], served, host) ∧
        (served = .ok ∨ served = .badHeader)) ∧
    ((Frame.encode c.first).length ≤ n →
      ∃ bodies tail cut, Frame.frames true (c.bytes.take n) = (c.first :: bodies, tail) ∧
        script? c.header bodies tail = some cut ∧
        ∃ e ∈ Script.cutErrors,
          serve host .closed (c.bytes.take n) = ([.failed e.message], .ok, host) ∧
          ∀ t, (cut.begun agent store).Settles t →
            t.outcome?.map report = some (.failed e.message) ∧ t.agent = agent ∧
              t.backend = .ofStore store) := by
  intro host
  refine ⟨fun hcut => ?_, fun hcut => ?_⟩
  · have htake : c.bytes.take n = (Frame.encode c.first).take n := by
      rw [Conversation.bytes, List.flatMap_cons, List.take_append_of_le_length (Nat.le_of_lt hcut)]
    rw [htake]
    exact serve_take_encode (c.short _ List.mem_cons_self) hcut host
  · obtain ⟨before, body, after, tail, hbodies, htail, hframes⟩ :=
      Frame.frames_take_cons c.short hcut hn
    have hbrings := c.brings
    rw [hbodies] at hbrings
    obtain ⟨cut, hscript, hshort⟩ := exists_cutShort hbrings c.legal nofun tail
    exact ⟨before, tail, cut, hframes, hscript,
      serve_of_cutShort hframes htail c.reads hscript hshort store library⟩

/-- A creation stream without its last byte, and a result stream that ends behind the length of its
last frame, are reported as failed. -/
theorem serve_cut_within_last_frame :
    let host : Host := ⟨.start ⟨"session", "parent"⟩ ⟨"secret"⟩ 10, .ofStore (.empty 0), .empty⟩
    let creation := (encode CallHeader.createTask ::
      [CreateRequest.init "secret" none, .header "secret" ⟨"t", [], []⟩, .data "secret" [0],
        .dataComplete "secret", .lastTask "secret"].map encode).flatMap Frame.encode
    let result := (encode CallHeader.sendResult ::
      [ResultRequest.key "secret" "k", .data "secret" [0], .dataComplete "secret",
        .lastResult "secret"].map encode).flatMap Frame.encode
    let behindLength := result.length - (encode (ResultRequest.lastResult "secret")).length
    creation.length - 1 < creation.length ∧ behindLength < result.length ∧
      (∃ e ∈ Script.cutErrors,
        serve host .closed (creation.take (creation.length - 1)) =
          ([.failed e.message], .ok, host)) ∧
      ∃ e ∈ Script.cutErrors,
        serve host .closed (result.take behindLength) = ([.failed e.message], .ok, host) := by
  intro host creation result behindLength
  have hcreation : (Script.create (List.map .ok [CreateRequest.init "secret" none,
      .header "secret" ⟨"t", [], []⟩, .data "secret" [0], .dataComplete "secret",
      .lastTask "secret"])).Legal ⟨"secret"⟩ := by
    refine ⟨[.init none, .header ⟨"t", [], []⟩, .data [0], .dataComplete, .lastTask], .terminal, ?_,
      rfl, rfl⟩
    simp [CreateStep.asked?, Token.refusal?, CreateRequest.init, CreateRequest.header,
      CreateRequest.data, CreateRequest.dataComplete, CreateRequest.lastTask, CreateStep.ofKind?]
  have hresult : (Script.result (List.map .ok [ResultRequest.key "secret" "k",
      .data "secret" [0], .dataComplete "secret", .lastResult "secret"])).Legal ⟨"secret"⟩ := by
    refine ⟨[.key "k", .data [0], .dataComplete, .lastResult], .terminal, ?_, rfl, rfl⟩
    simp [ResultStep.asked?, Token.refusal?, ResultRequest.key, ResultRequest.data,
      ResultRequest.dataComplete, ResultRequest.lastResult, ResultStep.ofKind?]
  let c : Conversation ⟨"secret"⟩ := .ofCreate _ (by decide +kernel) hcreation
  let r : Conversation ⟨"secret"⟩ := .ofResult _ (by decide +kernel) hresult
  obtain ⟨hcfirst, hc⟩ : (Frame.encode (encode CallHeader.createTask)).length ≤
      creation.length - 1 ∧ creation.length - 1 < creation.length := by decide +kernel
  obtain ⟨hrfirst, hr⟩ : (Frame.encode (encode CallHeader.sendResult)).length ≤ behindLength ∧
      behindLength < result.length := by decide +kernel
  refine ⟨hc, hr, ?_, ?_⟩
  · obtain ⟨-, -, -, -, -, e, he, hserve, -⟩ :=
      (serve_cut host.agent (.empty 0) .empty c (creation.length - 1) hc).2 hcfirst
    exact ⟨e, he, hserve⟩
  · obtain ⟨-, -, -, -, -, e, he, hserve, -⟩ :=
      (serve_cut host.agent (.empty 0) .empty r behindLength hr).2 hrfirst
    exact ⟨e, he, hserve⟩

end Connection

end Sidecar
