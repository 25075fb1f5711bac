import Sidecar.Agent.FetchStream

/-!
# How a resource is framed

What a request for a resource is due is a matter of the lookup alone (`Fetch.framed`): the key with
the first buffer, the other buffers, and a mark or the failure that ends them; where there is no
buffer, a single reply that says why. A `FetchStream` that is polled gives these replies in their
order, however often it is suspended, and it stops short of the last one only when the agent was
stopped (`FetchRun.resource_is_framed`).

What a stream still owes (`FetchStream.owed`) is what its polls bring, one reply at a time
(`FetchStream.Polls`). So what was delivered and what is owed make up the framed resource, unless a
poll has found the agent stopped, and then nothing is owed any more (`FetchRun.Frames`).
-/

namespace Sidecar

/-! ## What a request is due -/

namespace FetchReply

/-- The key that the reply names. -/
def key? (reply : FetchReply) : Option String :=
  match reply.kind with
  | .init key _ => some key
  | _ => none

/-- The buffer that the reply carries. -/
def buffer? (reply : FetchReply) : Option Bytes :=
  match reply.kind with
  | .init _ (.data (.data data)) | .data (.data data) => some data
  | _ => none

end FetchReply

namespace Fetch

/-- The buffers of a resource before its end or its failure. -/
def produced : Buffers → List Bytes
  | .ok data :: rest => data :: produced rest
  | _ => []

/-- The failure that ends a resource. -/
def failure? : Buffers → Option StorageError
  | [] => none
  | .ok _ :: rest => failure? rest
  | .error e :: _ => some e

/-- The last reply for a resource that brought data. -/
def terminal : Option StorageError → FetchReply
  | none => .complete
  | some e => .error "" e.message

/-- The text for a resource that brought none. -/
def reason : Option StorageError → String
  | none => Violation.noData.message
  | some e => e.message

/-- The replies that a request for a key is due, from what the lookup came to. -/
def framed (key : String) : Except StorageError Buffers → List FetchReply
  | .error (.notFound _) => [.initError key keyNotFound]
  | .error e => [.initError key e.message]
  | .ok buffers =>
    match produced buffers with
    | [] => [.initError key (reason (failure? buffers))]
    | first :: further =>
      .initData key first :: (further.map .data ++ [terminal (failure? buffers)])

/-- A failure after the first buffer ends the replies in place of the mark. -/
example (e : StorageError) : framed "key" (.ok [.ok [1], .error e]) =
    [.initData "key" [1], .error "" e.message] := rfl

theorem continuation_eq (buffers : Buffers) :
    continuation buffers = (produced buffers).map .data ++ [terminal (failure? buffers)] := by
  induction buffers with
  | nil => rfl
  | cons read rest ih =>
    cases read with
    | ok data => exact congrArg (.data data :: ·) ih
    | error e => rfl

theorem replies_eq_framed (key : String) (buffers : Buffers) :
    replies key buffers = framed key (.ok buffers) := by
  cases buffers with
  | nil => rfl
  | cons read rest =>
    cases read with
    | ok data => exact congrArg (.initData key data :: ·) (continuation_eq rest)
    | error e => rfl

/-- A request with the right token is answered with the framed resource, and a stop cuts it short
where there is a resource. -/
theorem answer_eq {agent : Agent} {library : Library} {request : FetchRequest}
    (htoken : agent.token.refusal? request.token = none) :
    answer agent library request =
      (framed request.key (library.fetch request.key),
        (library.fetch request.key).toOption.isSome) := by
  rw [answer, htoken]
  cases library.fetch request.key with
  | ok buffers => simp only [replies_eq_framed, Except.toOption, Option.isSome_some]
  | error e => cases e <;> rfl

/-- The first reply names the key, and no other does. -/
theorem framed_eq_cons (key : String) (lookup : Except StorageError Buffers) :
    ∃ first rest, framed key lookup = first :: rest ∧ first.key? = some key ∧
      ∀ reply ∈ rest, reply.key? = none := by
  cases lookup with
  | error e => cases e <;> exact ⟨_, [], rfl, rfl, nofun⟩
  | ok buffers =>
    rw [framed]
    cases produced buffers with
    | nil => exact ⟨_, [], rfl, rfl, nofun⟩
    | cons data further =>
      refine ⟨_, _, rfl, rfl, fun reply hreply => ?_⟩
      rw [List.mem_append, List.mem_map, List.mem_singleton] at hreply
      obtain ⟨_, _, rfl⟩ | rfl := hreply
      · rfl
      · cases failure? buffers <;> rfl

/-- The mark of completion is the last reply where it is one at all, and that is when the resource
brought data and did not fail. -/
theorem framed_eq_concat (key : String) (lookup : Except StorageError Buffers) :
    ∃ front last, framed key lookup = front ++ [last] ∧ .complete ∉ front ∧
      (last = .complete ↔
        ∃ buffers, lookup = .ok buffers ∧ produced buffers ≠ [] ∧ failure? buffers = none) := by
  have hinit : ∀ message, FetchReply.initError key message ≠ .complete := nofun
  cases lookup with
  | error e => cases e <;> exact ⟨[], _, rfl, nofun, iff_of_false (hinit _) nofun⟩
  | ok buffers =>
    rw [framed]
    cases hproduced : produced buffers with
    | nil => exact ⟨[], _, rfl, nofun, iff_of_false (hinit _) (by simp [hproduced])⟩
    | cons data further =>
      refine ⟨.initData key data :: further.map .data, _, rfl, ?_, ?_⟩
      · simp [FetchReply.initData, FetchReply.data, FetchReply.complete]
      · cases hfailure : failure? buffers <;>
          simp [terminal, FetchReply.error, FetchReply.complete, hproduced, hfailure]

/-- The replies carry the buffers that the resource produced. -/
theorem filterMap_buffer?_framed (key : String) (buffers : Buffers) :
    (framed key (.ok buffers)).filterMap FetchReply.buffer? = produced buffers := by
  have hfurther (further : List Bytes) :
      (further.map FetchReply.data).filterMap FetchReply.buffer? = further := by
    rw [List.filterMap_map]
    exact List.filterMap_some
  have hterminal : (terminal (failure? buffers)).buffer? = none := by
    cases failure? buffers <;> rfl
  have hinit : ∀ data, (FetchReply.initData key data).buffer? = some data := fun _ => rfl
  rw [framed]
  cases produced buffers with
  | nil => rfl
  | cons data further =>
    simp only
    rw [List.filterMap_cons_some (hinit data), List.filterMap_append, hfurther,
      List.filterMap_cons_none hterminal, List.filterMap_nil, List.append_nil]

section
variable {key : String} {lookup : Except StorageError Buffers} {delivered : List FetchReply}

/-- Of what is delivered, the first reply names the key. -/
theorem key?_of_delivered (h : delivered <+: framed key lookup) {n : Nat} {reply : FetchReply}
    (hreply : delivered[n]? = some reply) : reply.key? = if n = 0 then some key else none := by
  obtain ⟨first, rest, hframed, hfirst, hrest⟩ := framed_eq_cons key lookup
  obtain ⟨more, hmore⟩ := h
  have hlt := (List.getElem?_eq_some_iff.1 hreply).1
  have hsame : (delivered ++ more)[n]? = delivered[n]? := List.getElem?_append_left hlt
  rw [← hsame, hmore, hframed] at hreply
  cases n with
  | zero =>
    obtain rfl : first = reply := Option.some.inj hreply
    exact hfirst
  | succ n => exact hrest reply (List.mem_of_getElem? hreply)

/-- The mark of completion is delivered if and only if the whole resource is. -/
theorem complete_mem_iff (h : delivered <+: framed key lookup) :
    .complete ∈ delivered ↔ delivered = framed key lookup ∧
      ∃ buffers, lookup = .ok buffers ∧ produced buffers ≠ [] ∧ failure? buffers = none := by
  obtain ⟨front, last, hframed, hfront, hlast⟩ := framed_eq_concat key lookup
  rw [hframed, ← hlast]
  rw [hframed, List.prefix_concat_iff] at h
  rcases h with rfl | h
  · simp [hfront, eq_comm]
  · refine iff_of_false (fun hmem => hfront (h.subset hmem)) fun heq => ?_
    have := h.length_le
    rw [heq.1, List.length_append, List.length_singleton] at this
    omega

end

end Fetch

/-! ## What a stream owes -/

/-- The replies that are still to come of a resource. -/
def ResourceReplies.owed (r : ResourceReplies) : List FetchReply :=
  match r.phase with
  | .first => Fetch.replies r.key r.unread
  | .rest => Fetch.continuation r.unread
  | .done => []

/-- The next reply is the first one that is owed. Only what is done owes none. -/
theorem ResourceReplies.next?_cases (r : ResourceReplies) :
    (r.phase = .done ∧ r.next? = none ∧ r.owed = []) ∨
      ∃ reply after, r.next? = some (reply, after) ∧ r.owed = reply :: after.owed := by
  obtain ⟨key, phase, unread⟩ := r
  cases phase with
  | done => exact .inl ⟨rfl, rfl, rfl⟩
  | first | rest =>
    cases unread with
    | nil => exact .inr ⟨_, _, rfl, rfl⟩
    | cons read unread => cases read <;> exact .inr ⟨_, _, rfl, rfl⟩

namespace FetchStream

/-- The replies that are still to come of a stream, unless the agent is stopped. -/
def owed : FetchStream → List FetchReply
  | single reply? => reply?.toList
  | resource _ true => []
  | resource replies false => replies.owed

/-- Does the stream bring a resource, so that a stop cuts it short? -/
def isCut : FetchStream → Bool
  | single _ => false
  | resource .. => true

/-- To begin with, the stream owes all replies to its request. -/
theorem owed_isCut_ofRequest (agent : Agent) (library : Library) (request : FetchRequest) :
    ((ofRequest agent library request).owed, (ofRequest agent library request).isCut) =
      Fetch.answer agent library request := by
  unfold ofRequest Fetch.answer
  cases agent.token.refusal? request.token with
  | some refusal => rfl
  | none =>
    cases library.fetch request.key with
    | ok buffers => rfl
    | error e => cases e <;> rfl

/-- What a poll comes to: the first reply that is owed is given, or nothing is owed and the stream
ends, or the agent was stopped and the stream ends for that, or the poll is suspended. -/
inductive Polls (stream : FetchStream) (ready stopped : Bool) : Fetched × FetchStream → Prop where
  | given {reply : FetchReply} {after : FetchStream} (hgoing : (stopped && stream.isCut) = false)
      (howed : stream.owed = reply :: after.owed) (hkind : after.isCut = stream.isCut) :
      Polls stream ready stopped (.reply reply, after)
  | ended {after : FetchStream} (howed : stream.owed = []) (hafter : after.owed = [])
      (hkind : after.isCut = stream.isCut) : Polls stream ready stopped (.ended, after)
  | cut {after : FetchStream} (hstopped : (stopped && stream.isCut) = true)
      (hafter : after.owed = []) (hkind : after.isCut = stream.isCut) :
      Polls stream ready stopped (.ended, after)
  | suspended (hgoing : (stopped && stream.isCut) = false) (howed : stream.owed ≠ [])
      (hready : ready = false) : Polls stream ready stopped (.pending, stream)

/-- A poll comes to one of these. -/
theorem polls_poll (stream : FetchStream) (ready stopped : Bool) :
    stream.Polls ready stopped (stream.poll ready stopped) := by
  cases stream with
  | single reply? =>
    cases reply? with
    | none => exact .ended rfl rfl rfl
    | some reply => exact .given (Bool.and_false _) rfl rfl
  | resource replies finished =>
    cases finished with
    | true => exact .ended rfl rfl rfl
    | false =>
      cases stopped with
      | true => exact .cut rfl rfl rfl
      | false =>
        rw [poll, Bool.or_false, if_neg Bool.false_ne_true]
        obtain ⟨hdone, hnext, howed⟩ | ⟨reply, after, hnext, howed⟩ := replies.next?_cases
        · rw [if_neg (fun h => h.1 hdone), hnext]
          exact .ended howed rfl rfl
        · split
          next hwaits =>
            refine .suspended rfl (by rw [owed, howed]; nofun) (Bool.eq_false_iff.2 hwaits.2)
          next =>
            rw [hnext]
            exact .given rfl howed rfl

/-- Where nothing is owed or a stop has its say, a poll ends the stream. -/
theorem poll_fst_eq_ended {stream : FetchStream} {stopped : Bool}
    (h : stream.owed = [] ∨ (stopped && stream.isCut) = true) (ready : Bool) :
    (stream.poll ready stopped).1 = .ended := by
  cases hpoll : stream.poll ready stopped with
  | mk answer after =>
    cases hpoll ▸ stream.polls_poll ready stopped with
    | ended | cut => rfl
    | given hgoing howed => simp [hgoing, howed] at h
    | suspended hgoing howed => simp [hgoing, howed] at h

end FetchStream

/-! ## Reading a stream -/

/-- What happens while a stream is read: a poll, at which the resource is ready or not, or the agent
is stopped. -/
inductive FetchEvent where
  | poll (ready : Bool)
  | stop
deriving DecidableEq, Repr

/-- A stream that is read: the stream, whether the agent was stopped, and what the polls were
answered. -/
structure FetchRun where
  stream : FetchStream
  stopped : Bool
  answers : List Fetched

/-- The reply that an answer brings. -/
def Fetched.reply? : Fetched → Option FetchReply
  | .reply r => some r
  | _ => none

namespace FetchRun

/-- A request was made and nothing was read. -/
def start (agent : Agent) (library : Library) (request : FetchRequest) : FetchRun :=
  ⟨.ofRequest agent library request, agent.stopped, []⟩

/-- A poll was answered. -/
def answer (run : FetchRun) (answered : Fetched × FetchStream) : FetchRun :=
  { run with stream := answered.2, answers := run.answers ++ [answered.1] }

/-- What an event makes of a run. -/
def apply (run : FetchRun) : FetchEvent → FetchRun
  | .poll ready => run.answer (run.stream.poll ready run.stopped)
  | .stop => { run with stopped := true }

/-- The run after some events. -/
def after (run : FetchRun) (es : List FetchEvent) : FetchRun := es.foldl apply run

/-- The replies that were read. -/
def delivered (run : FetchRun) : List FetchReply := run.answers.filterMap Fetched.reply?

@[simp] theorem stream_answer (run : FetchRun) (answered : Fetched × FetchStream) :
    (run.answer answered).stream = answered.2 := rfl

@[simp] theorem stopped_answer (run : FetchRun) (answered : Fetched × FetchStream) :
    (run.answer answered).stopped = run.stopped := rfl

@[simp] theorem delivered_answer (run : FetchRun) (answered : Fetched × FetchStream) :
    (run.answer answered).delivered = run.delivered ++ answered.1.reply?.toList := by
  obtain ⟨answer, stream⟩ := answered
  cases answer <;> simp [delivered, FetchRun.answer, Fetched.reply?]

/-- Where a run stands that has to bring some replies: they are delivered or owed, unless the stream
was cut. Once the stream has ended it has nothing more to say. -/
structure Frames (replies : List FetchReply) (cut : Bool) (run : FetchRun) : Prop where
  kind : run.stream.isCut = cut
  whole : run.delivered ++ run.stream.owed = replies ∨
    (run.stopped && cut) = true ∧ run.stream.owed = [] ∧ run.delivered <+: replies
  silent : .ended ∈ run.answers → run.stream.owed = []
  final : ∃ going n, run.answers = going ++ List.replicate n .ended ∧ .ended ∉ going

namespace Frames

variable {replies : List FetchReply} {cut : Bool} {run : FetchRun}

theorem start {agent : Agent} {library : Library} {request : FetchRequest}
    (htoken : agent.token.refusal? request.token = none) :
    Frames (Fetch.framed request.key (library.fetch request.key))
      (library.fetch request.key).toOption.isSome (start agent library request) := by
  have hanswer := (FetchStream.owed_isCut_ofRequest agent library request).trans
    (Fetch.answer_eq htoken)
  exact ⟨congrArg Prod.snd hanswer, .inl (congrArg Prod.fst hanswer), nofun, [], 0, rfl, nofun⟩

/-- Where something is owed the stream has not ended. -/
theorem ended_notMem (h : Frames replies cut run) (howed : run.stream.owed ≠ []) :
    .ended ∉ run.answers := fun hended => howed (h.silent hended)

/-- What is delivered comes first in what is owed. -/
theorem delivered_prefix_replies (h : Frames replies cut run) : run.delivered <+: replies := by
  rcases h.whole with hwhole | hcut
  · exact ⟨_, hwhole⟩
  · exact hcut.2.2

/-- A poll gives what is owed. -/
theorem poll (h : Frames replies cut run) (ready : Bool) :
    Frames replies cut (run.apply (.poll ready)) := by
  have hpolls := run.stream.polls_poll ready run.stopped
  obtain ⟨going, n, hanswers, hgoing⟩ := h.final
  -- A stream that has ended has given one answer more to the same effect.
  have hfinal : ∃ going' n', run.answers ++ [.ended] = going' ++ List.replicate n' .ended ∧
      .ended ∉ going' := by
    refine ⟨going, n + 1, ?_, hgoing⟩
    rw [hanswers, List.append_assoc, ← List.replicate_succ']
  rw [apply]
  generalize run.stream.poll ready run.stopped = result at hpolls
  cases hpolls with
  | @given reply after _ howed hkind =>
    have hnever := h.ended_notMem (by rw [howed]; nofun)
    have hmore : .ended ∉ run.answers ++ [.reply reply] := by simp [hnever]
    refine ⟨hkind.trans h.kind, .inl ?_, fun hended => absurd hended hmore,
      run.answers ++ [.reply reply], 0, (List.append_nil _).symm, hmore⟩
    have hwhole := h.whole.resolve_right fun hcut => by rw [howed] at hcut; cases hcut.2.1
    rw [← hwhole, howed, delivered_answer]
    exact List.append_assoc ..
  | ended howed hafter hkind =>
    refine ⟨hkind.trans h.kind, ?_, fun _ => hafter, hfinal⟩
    have hwhole := h.whole
    rw [howed] at hwhole
    simpa [Fetched.reply?, hafter] using hwhole
  | cut hstopped hafter hkind =>
    refine ⟨hkind.trans h.kind, .inr ⟨h.kind ▸ hstopped, hafter, ?_⟩, fun _ => hafter, hfinal⟩
    simpa [Fetched.reply?] using h.delivered_prefix_replies
  | suspended _ howed =>
    have hmore : .ended ∉ run.answers ++ [.pending] := by simp [h.ended_notMem howed]
    refine ⟨h.kind, ?_, fun hended => absurd hended hmore, run.answers ++ [.pending], 0,
      (List.append_nil _).symm, hmore⟩
    simpa [Fetched.reply?] using h.whole

/-- The agent is stopped. -/
theorem stop (h : Frames replies cut run) : Frames replies cut (run.apply .stop) where
  kind := h.kind
  whole := h.whole.imp_right fun ⟨hcut, hrest⟩ =>
    ⟨by rw [Bool.and_eq_true] at hcut ⊢; exact ⟨rfl, hcut.2⟩, hrest⟩
  silent := h.silent
  final := h.final

theorem after (h : Frames replies cut run) (es : List FetchEvent) :
    Frames replies cut (run.after es) := by
  induction es generalizing run with
  | nil => exact h
  | cons e es ih =>
    cases e with
    | poll ready => exact ih (h.poll ready)
    | stop => exact ih h.stop

/-- Unless a stop has its say, a poll is answered with the next reply, or it is suspended. -/
theorem poll_eq_next (h : Frames replies cut run) (hgoing : (run.stopped && cut) = false)
    (ready : Bool) :
    (run.stream.poll ready run.stopped).1 = (replies[run.delivered.length]?).elim .ended .reply ∨
      (run.stream.poll ready run.stopped).1 = .pending ∧ ready = false := by
  have hwhole := h.whole.resolve_right fun hcut => by rw [hgoing] at hcut; cases hcut.1
  have hnext : replies[run.delivered.length]? = run.stream.owed.head? := by
    rw [← hwhole, List.getElem?_append_right (Nat.le_refl _), Nat.sub_self, List.head?_eq_getElem?]
  have hpolls := run.stream.polls_poll ready run.stopped
  rw [hnext]
  generalize run.stream.poll ready run.stopped = result at hpolls
  cases hpolls with
  | given _ howed => exact .inl (by rw [howed]; rfl)
  | ended howed => exact .inl (by rw [howed]; rfl)
  | cut hstopped =>
    rw [h.kind, hgoing] at hstopped
    cases hstopped
  | suspended _ _ hready => exact .inr ⟨rfl, hready⟩

end Frames

/-- **A resource is framed.** However the polls of a request with the right token are suspended, and
whenever the agent is stopped, the replies delivered are the first ones of the framed resource. They
are all of them if the stream ends before a stop. A poll is answered with the next one, unless it is
suspended; if the agent was stopped, it ends the stream of a resource. After its end a stream stays
over. Only the first reply names the key, the replies carry the buffers of the resource, and the
mark of completion is delivered if and only if the resource brought data, did not fail and is
delivered as a whole. -/
theorem resource_is_framed (agent : Agent) (library : Library) (request : FetchRequest)
    (htoken : agent.token.refusal? request.token = none) (es : List FetchEvent) :
    let lookup := library.fetch request.key
    let framed := Fetch.framed request.key lookup
    let run := (start agent library request).after es
    let answer := fun ready => (run.stream.poll ready run.stopped).1
    run.delivered <+: framed ∧
    (run.stopped = false → .ended ∈ run.answers → run.delivered = framed) ∧
    (∀ ready, run.stopped = false ∨ (∃ e, lookup = .error e) →
      answer ready = (framed[run.delivered.length]?).elim .ended .reply ∨
        answer ready = .pending ∧ ready = false) ∧
    (∀ ready buffers, run.stopped = true → lookup = .ok buffers → answer ready = .ended) ∧
    (∃ going n, run.answers = going ++ List.replicate n .ended ∧ .ended ∉ going) ∧
    (∀ (n : Nat) reply, run.delivered[n]? = some reply →
      reply.key? = if n = 0 then some request.key else none) ∧
    (∀ buffers, lookup = .ok buffers →
      run.delivered.filterMap FetchReply.buffer? <+: Fetch.produced buffers ∧
      (run.delivered = framed →
        run.delivered.filterMap FetchReply.buffer? = Fetch.produced buffers)) ∧
    (.complete ∈ run.delivered ↔ run.delivered = framed ∧ ∃ buffers, lookup = .ok buffers ∧
      Fetch.produced buffers ≠ [] ∧ Fetch.failure? buffers = none) := by
  intro lookup framed run answer
  have h : Frames framed lookup.toOption.isSome run := (Frames.start htoken).after es
  have hpre := h.delivered_prefix_replies
  refine ⟨hpre, fun hgoing hended => ?_, fun ready hgoing => ?_,
    fun ready buffers hstopped hok => ?_, h.final, fun n reply => Fetch.key?_of_delivered hpre,
    fun buffers hok => ?_, Fetch.complete_mem_iff hpre⟩
  · rcases h.whole with hwhole | hcut
    · rwa [h.silent hended, List.append_nil] at hwhole
    · rw [hgoing] at hcut
      cases hcut.1
  · refine h.poll_eq_next ?_ ready
    rcases hgoing with hgoing | ⟨e, he⟩
    · rw [hgoing, Bool.false_and]
    · rw [he, Bool.and_eq_false_imp]
      exact fun _ => rfl
  · refine FetchStream.poll_fst_eq_ended (.inr ?_) ready
    rw [hstopped, h.kind, hok]
    rfl
  · have hcarried := Fetch.filterMap_buffer?_framed request.key buffers
    rw [← hok] at hcarried
    exact ⟨hcarried ▸ hpre.filterMap _, fun hwhole => hwhole ▸ hcarried⟩

/-- A stop after the first reply cuts the resource short. -/
theorem resource_is_framed_stopped :
    let agent := Agent.start ⟨"session", "task"⟩ ⟨"secret"⟩ 1
    let library : Library := .memory (Dict.insert ∅ "key" [[1], [2]])
    let run := (start agent library ⟨"secret", "key"⟩).after [.poll false, .poll true, .stop]
    agent.token.refusal? "secret" = none ∧ run.delivered = [.initData "key" [1]] ∧
      (run.stream.poll true run.stopped).1 = .ended ∧ .complete ∉ run.delivered := by
  intro agent library run
  have htoken : agent.token.refusal? "secret" = none := by decide +kernel
  obtain ⟨-, -, -, hcut, -, -, -, hcomplete⟩ := resource_is_framed agent library
    ⟨"secret", "key"⟩ htoken [.poll false, .poll true, .stop]
  have hdelivered : run.delivered = [.initData "key" [1]] := by decide +kernel
  refine ⟨htoken, hdelivered, hcut true [.ok [1], .ok [2]] rfl rfl, fun hmem => ?_⟩
  exact absurd (hdelivered.symm.trans (hcomplete.1 hmem).1) (by decide)

/-! ## Reading at one go -/

/-- Polls that are never suspended deliver what is owed, unless a stop has its say. -/
theorem delivered_after_polls (run : FetchRun) (n : Nat) :
    (run.after (List.replicate n (.poll true))).delivered =
      run.delivered ++ if run.stopped && run.stream.isCut then [] else run.stream.owed.take n := by
  induction n generalizing run with
  | zero => simp [after]
  | succ n ih =>
    have hpolls := run.stream.polls_poll true run.stopped
    have hstep := ih (run.apply (.poll true))
    rw [List.replicate_succ, after, List.foldl_cons, ← after, hstep, apply]
    generalize run.stream.poll true run.stopped = result at hpolls
    cases hpolls with
    | given hgoing howed hkind => simp [hkind, hgoing, howed, Fetched.reply?]
    | ended howed hafter hkind => simp [hkind, howed, hafter, Fetched.reply?]
    | cut hstopped _ hkind => simp [hkind, hstopped, Fetched.reply?]
    | suspended _ _ hready => cases hready

/-- A stream whose polls are never suspended delivers the replies of the request at one go. -/
theorem delivered_start_after_polls (agent : Agent) (library : Library) (request : FetchRequest)
    (n : Nat) : ((start agent library request).after (List.replicate n (.poll true))).delivered =
      (agent.getResource library request).take n := by
  rw [delivered_after_polls, Agent.getResource, ← FetchStream.owed_isCut_ofRequest]
  simp only [start, Bool.and_comm agent.stopped]
  split <;> simp [delivered]

end FetchRun

end Sidecar
