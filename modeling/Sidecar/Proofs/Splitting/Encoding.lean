import Sidecar.Encoder
import Sidecar.Proofs.Splitting.Refinement

/-!
# Encoded buffers come apart again

A worker reports the buffers of a request as the replies of an `Encoder`, and the replies to many
requests follow each other on one stream. Only the completion flag marks where a request ends. The
encoder sets it on the last reply of a run and on no other (`Encoder.Closing`), so a split of the
stream hands out one group a request, with the request's replies in it
(`Demux.separates_reports`).
-/

namespace Sidecar

/-! ## The replies of an encoder -/

namespace Encoder

/-- The reply to a request that carries a fragment, with the key if there is one. -/
def keyed (replyId : String) (key : Option String) (fragment : Fragment) : KeyedReply :=
  frame ⟨replyId, key, [], false, false⟩ fragment

/-- The replies that bring some buffers: the first one names the key, the last one says that it is
the last. -/
def framed (replyId : String) (key : Option String) : List Bytes → List KeyedReply
  | [] => []
  | [buffer] => [keyed replyId key ⟨buffer, true⟩]
  | buffer :: next :: rest =>
    keyed replyId key ⟨buffer, false⟩ :: framed replyId none (next :: rest)

/-- An encoder gives the replies to who asks for them until there is none, while the buffers arrive
one after the other and then the run ends. When each of this happens is left open. -/
inductive Gives : Encoder → List Bytes → List KeyedReply → Prop
  | feed {e : Encoder} {buffer : Bytes} {buffers : List Bytes} {replies : List KeyedReply}
      (h : Gives (e.feed buffer) buffers replies) : Gives e (buffer :: buffers) replies
  | finish {e : Encoder} {replies : List KeyedReply} (h : Gives e.finish [] replies) :
      Gives e [] replies
  | reply {e e' : Encoder} {buffers : List Bytes} {reply : KeyedReply} {replies : List KeyedReply}
      (hnext : e.next = (.reply reply, e')) (h : Gives e' buffers replies) :
      Gives e buffers (reply :: replies)
  | pending {e e' : Encoder} {buffers : List Bytes} {replies : List KeyedReply}
      (hnext : e.next = (.pending, e')) (h : Gives e' buffers replies) : Gives e buffers replies
  | ended {e e' : Encoder} {buffers : List Bytes} (hnext : e.next = (.ended, e')) :
      Gives e buffers []

@[simp] theorem fragment_keyed (replyId : String) (key : Option String) (f : Fragment) :
    (keyed replyId key f).fragment = f := by
  cases key <;> rfl

/-- What feeding does, as long as the run is not over. -/
theorem feed_of_ended_eq_false {e : Encoder} (h : e.ended = false) (buffer : Bytes) :
    e.feed buffer = { e with buffers := e.buffers ++ [buffer] } := by
  simp [feed, h]

theorem done_feed (e : Encoder) (buffer : Bytes) : (e.feed buffer).done = e.done := by
  unfold feed
  split <;> rfl

/-- A reply brings the first buffer, once the next one or the end of the run is known. -/
theorem next_eq_reply {e e' : Encoder} {reply : KeyedReply} (h : e.next = (.reply reply, e')) :
    e.done = false ∧
      ((∃ buffer next rest, e.buffers = buffer :: next :: rest ∧
          reply = keyed e.replyId e.key ⟨buffer, false⟩ ∧
          e' = { e with key := none, buffers := next :: rest }) ∨
        ∃ buffer, e.buffers = [buffer] ∧ e.ended = true ∧
          reply = keyed e.replyId e.key ⟨buffer, true⟩ ∧
          e' = { e with key := none, buffers := [], done := true }) := by
  unfold next at h
  split at h
  next => cases h
  next hdone =>
    refine ⟨by simpa using hdone, ?_⟩
    split at h
    next buffer next rest hbuffers =>
      cases h
      exact .inl ⟨buffer, next, rest, hbuffers, rfl, rfl⟩
    next buffer hbuffers =>
      split at h
      next hended =>
        cases h
        exact .inr ⟨buffer, hbuffers, hended, rfl, rfl⟩
      next => cases h
    next hbuffers =>
      split at h
      next => split at h <;> cases h
      next => cases h

/-- Waiting changes nothing. -/
theorem next_eq_pending {e e' : Encoder} (h : e.next = (.pending, e')) : e' = e := by
  unfold next at h
  repeat' split at h
  all_goals cases h
  all_goals rfl

/-- There is no other reply once the run is over and all buffers are framed. -/
theorem next_eq_ended {e e' : Encoder} (h : e.next = (.ended, e')) (hdone : e.done = false) :
    e.buffers = [] ∧ e.ended = true := by
  unfold next at h
  rw [if_neg (by simp [hdone])] at h
  split at h
  next => cases h
  next => split at h <;> cases h
  next hbuffers =>
    split at h
    next hended => exact ⟨hbuffers, hended⟩
    next => cases h

/-- After the last reply there is none. -/
theorem Gives.eq_nil_of_done {e : Encoder} {buffers : List Bytes} {replies : List KeyedReply}
    (h : e.Gives buffers replies) (hdone : e.done = true) : replies = [] := by
  induction h with
  | feed _ ih => exact ih (by rw [done_feed, hdone])
  | finish _ ih => exact ih hdone
  | reply hnext => exact absurd hdone (by simp [(next_eq_reply hnext).1])
  | pending hnext _ ih => exact ih (by rw [next_eq_pending hnext, hdone])
  | ended => rfl

/-- Whenever the buffers arrive, they are brought by the same replies. -/
theorem Gives.eq_framed {e : Encoder} {buffers : List Bytes} {replies : List KeyedReply}
    (h : e.Gives buffers replies) (hdone : e.done = false) (hended : e.ended = true → buffers = [])
    (hne : e.buffers ++ buffers ≠ []) :
    replies = framed e.replyId e.key (e.buffers ++ buffers) := by
  induction h with
  | @feed e buffer buffers replies _ ih =>
    have hopen : e.ended = false := by
      cases h : e.ended with
      | false => rfl
      | true => cases hended h
    rw [feed_of_ended_eq_false hopen] at ih
    rw [ih hdone (by simp [hopen]) (by simp), List.append_assoc, List.singleton_append]
  | finish _ ih => exact ih hdone (fun _ => rfl) hne
  | @reply e e' buffers reply replies hnext hgives ih =>
    obtain ⟨-, ⟨buffer, next, rest, hbuffers, rfl, rfl⟩ | ⟨buffer, hbuffers, hrun, rfl, rfl⟩⟩ :=
      next_eq_reply hnext
    · rw [ih hdone hended (by simp), hbuffers]
      rfl
    · rw [hgives.eq_nil_of_done rfl, hbuffers, hended hrun]
      rfl
  | pending hnext _ ih =>
    rw [next_eq_pending hnext] at ih
    exact ih hdone hended hne
  | ended hnext =>
    obtain ⟨hbuffers, hrun⟩ := next_eq_ended hnext hdone
    exact absurd (by rw [hbuffers, hended hrun]; rfl) hne

/-- Once the run is over, the replies to all its buffers can be asked for. -/
theorem gives_framed (e : Encoder) (hdone : e.done = false) (hended : e.ended = true)
    (hne : e.buffers ≠ []) : e.Gives [] (framed e.replyId e.key e.buffers) := by
  match hbuffers : e.buffers with
  | [] => exact absurd hbuffers hne
  | [buffer] =>
    have hnext : e.next = (.reply (keyed e.replyId e.key ⟨buffer, true⟩),
        { e with key := none, buffers := [], done := true }) := by
      simp [next, hdone, hended, hbuffers, keyed, frame]
    exact .reply hnext (.ended rfl)
  | buffer :: next :: rest =>
    have hnext : e.next = (.reply (keyed e.replyId e.key ⟨buffer, false⟩),
        { e with key := none, buffers := next :: rest }) := by
      simp [Encoder.next, hdone, hbuffers, keyed, frame]
    exact .reply hnext
      (gives_framed { e with key := none, buffers := next :: rest } hdone hended nofun)
termination_by e.buffers.length
decreasing_by simp [hbuffers]

/-- The buffers of a run can be fed, and then the replies be asked for. -/
theorem exists_gives {e : Encoder} {buffers : List Bytes} (hdone : e.done = false)
    (hopen : e.ended = false) (hne : e.buffers ++ buffers ≠ []) :
    ∃ replies, e.Gives buffers replies := by
  induction buffers generalizing e with
  | nil =>
    rw [List.append_nil] at hne
    exact ⟨_, .finish (gives_framed e.finish hdone rfl hne)⟩
  | cons buffer buffers ih =>
    have hfed := feed_of_ended_eq_false hopen buffer
    obtain ⟨replies, hgives⟩ := ih (e := e.feed buffer) (by rw [hfed, hdone]) (by rw [hfed, hopen])
      (by simp [hfed])
    exact ⟨replies, .feed hgives⟩

/-! ## What the replies say -/

/-- The last reply of a run says that it is the last, and no other does. -/
def Closing (replies : List KeyedReply) : Prop :=
  ∃ before last, replies = before ++ [last] ∧ (∀ reply ∈ before, reply.fragment.last = false) ∧
    last.fragment.last = true

/-- The completion flag is set on the last reply only. -/
theorem closing_framed (replyId : String) (key : Option String) {buffers : List Bytes}
    (hne : buffers ≠ []) : Closing (framed replyId key buffers) := by
  match buffers with
  | [] => exact absurd rfl hne
  | [buffer] => exact ⟨[], _, rfl, nofun, by rw [fragment_keyed]⟩
  | buffer :: next :: rest =>
    obtain ⟨before, last, hframed, hbefore, hlast⟩ :=
      closing_framed replyId none (List.cons_ne_nil next rest)
    refine ⟨keyed replyId key ⟨buffer, false⟩ :: before, last, by rw [framed, hframed]; rfl, ?_,
      hlast⟩
    intro reply hreply
    rcases List.mem_cons.1 hreply with rfl | hreply
    · rw [fragment_keyed]
    · exact hbefore reply hreply

/-- The replies bring the buffers, one each. -/
theorem data_framed (replyId : String) (key : Option String) (buffers : List Bytes) :
    (framed replyId key buffers).map (·.fragment.data) = buffers := by
  match buffers with
  | [] => rfl
  | [buffer] => simp [framed]
  | buffer :: next :: rest =>
    rw [framed, List.map_cons, data_framed replyId none (next :: rest), fragment_keyed]

end Encoder

/-! ## Reports -/

/-- What is reported: the output of a task, or a result. -/
inductive ReportKind where
  | output
  | result
deriving DecidableEq, Repr

namespace ReportKind

/-- The tag of the replies that report it. -/
def tag : ReportKind → ReplyTag
  | output => .output
  | result => .result

/-- The worker's reply that brings the same fragment as a keyed reply. -/
def reply (kind : ReportKind) (r : KeyedReply) : WorkerReply :=
  .ofKind r.replyId <| match kind, r.kind with
    | output, .init _ f => .output (some (.init (some (.fragment f))))
    | output, .data f => .output (some (.data f))
    | result, .init key f => .result (some (.init key f))
    | result, .data f => .result (some (.data f))

end ReportKind

/-- The fragment that a worker's reply brings, if it brings one. -/
def WorkerReply.fragment? (r : WorkerReply) : Option Fragment :=
  match r.kind with
  | some (.output (some (.init (some (.fragment f))))) | some (.output (some (.data f)))
  | some (.result (some (.init _ f))) | some (.result (some (.data f))) => some f
  | _ => none

@[simp] theorem ReportKind.fragment?_reply (kind : ReportKind) (r : KeyedReply) :
    (kind.reply r).fragment? = some r.fragment := by
  obtain ⟨id, _ | _⟩ := r <;> cases kind <;> rfl

/-- A worker's report: the request it answers, what is reported under which key, and the buffers.
There is at least one. -/
structure Report where
  requestId : String
  kind : ReportKind
  key : String
  buffers : List Bytes
  nonempty : buffers ≠ []

/-- A report whose buffers were encoded. -/
structure EncodedReport extends Report where
  replies : List KeyedReply
  gives : (Encoder.start requestId key).Gives buffers replies

namespace EncodedReport

/-- The worker's replies for a report. -/
def messages (r : EncodedReport) : List WorkerReply := r.replies.map r.kind.reply

/-- The worker's replies for a report, each with whether it completes the report. -/
def flagged (r : EncodedReport) : List (WorkerReply × Bool) :=
  r.replies.map fun reply => (r.kind.reply reply, reply.fragment.last)

theorem replies_eq (r : EncodedReport) :
    r.replies = Encoder.framed r.requestId (some r.key) r.buffers :=
  r.gives.eq_framed rfl nofun r.nonempty

theorem closing (r : EncodedReport) : Encoder.Closing r.replies := by
  rw [r.replies_eq]
  exact Encoder.closing_framed _ _ r.nonempty

/-- The replies bring the buffers of the report. -/
theorem data_messages (r : EncodedReport) :
    (r.messages.filterMap WorkerReply.fragment?).map Fragment.data = r.buffers := by
  have hfragment : WorkerReply.fragment? ∘ r.kind.reply = some ∘ (·.fragment) := by
    funext reply
    simp
  have hfragments : r.messages.filterMap WorkerReply.fragment? = r.replies.map (·.fragment) := by
    rw [messages, List.filterMap_map, hfragment, List.filterMap_eq_map]
  rw [hfragments, r.replies_eq, List.map_map]
  exact Encoder.data_framed _ _ _

/-- Every report can be encoded. -/
theorem exists_of_report (r : Report) : ∃ e : EncodedReport, e.toReport = r := by
  obtain ⟨replies, hgives⟩ :=
    Encoder.exists_gives (e := .start r.requestId r.key) rfl rfl r.nonempty
  exact ⟨⟨r, replies, hgives⟩, rfl⟩

end EncodedReport

/-! ## One group a report -/

namespace Tracker

/-- Between two reports, or inside a report of the kind. -/
def Reporting (tracker : Tracker) (kind : ReportKind) : Prop :=
  tracker = .start ∨ tracker = ⟨some kind.tag, false⟩

/-- A reply of the report completes it exactly if it says that it is the last. -/
theorem Reporting.observe {tracker : Tracker} {kind : ReportKind} (h : tracker.Reporting kind)
    (r : KeyedReply) :
    ∃ boundary after, tracker.observe (kind.reply r) = .ok (boundary, after) ∧
      boundary.completes = r.fragment.last ∧
      after = if r.fragment.last then .start else ⟨some kind.tag, false⟩ := by
  obtain ⟨id, ⟨key, f⟩ | ⟨f⟩⟩ := r <;> rcases h with rfl | rfl <;> cases kind <;>
    exact ⟨_, _, rfl, rfl, rfl⟩

/-- The replies of a report are all accepted, and the last one completes it. -/
theorem Reporting.accept {tracker : Tracker} {kind : ReportKind} (h : tracker.Reporting kind)
    {replies : List KeyedReply} (hclosing : Encoder.Closing replies)
    (rest : List (Except Cause WorkerReply)) :
    tracker.accept ((replies.map kind.reply).map .ok ++ rest) =
      ((replies.map fun r => (kind.reply r, r.fragment.last)) ++ (start.accept rest).1,
        (start.accept rest).2) := by
  obtain ⟨before, last, rfl, hbefore, hlast⟩ := hclosing
  induction before generalizing tracker with
  | nil =>
    obtain ⟨boundary, after, hobserve, hcompletes, rfl⟩ := h.observe last
    simp [Tracker.accept, hobserve, hcompletes, hlast]
  | cons r before ih =>
    rw [List.forall_mem_cons] at hbefore
    obtain ⟨boundary, after, hobserve, hcompletes, rfl⟩ := h.observe r
    have hrest := @ih ⟨some kind.tag, false⟩ (.inr rfl) hbefore.2
    simp only [List.cons_append, List.map_cons, Tracker.accept, hobserve, hcompletes, hbefore.1,
      hrest, Bool.false_eq_true, if_false]

end Tracker

namespace EncodedReport

/-- The replies for some reports, one report after the other. -/
def stream (reports : List EncodedReport) : List (Except Cause WorkerReply) :=
  (reports.flatMap messages).map .ok

/-- All replies are accepted, and at the end no group is open. -/
theorem accept_stream (reports : List EncodedReport) :
    Tracker.start.accept (stream reports) = (reports.flatMap flagged, .ok .start) := by
  induction reports with
  | nil => rfl
  | cons r reports ih =>
    have hstream : stream (r :: reports) =
        (r.replies.map r.kind.reply).map .ok ++ stream reports := by
      simp [stream, messages]
    have hreport : Tracker.start.Reporting r.kind := .inl rfl
    rw [hstream, hreport.accept r.closing, ih, List.flatMap_cons]
    rfl

/-- The replies of a report make up one part. -/
theorem foldl_push_flagged (r : EncodedReport) (c : Cut WorkerReply) :
    r.flagged.foldl (fun c x => c.push x.1 x.2) c = ⟨c.closed ++ [c.rest ++ r.messages], []⟩ := by
  obtain ⟨before, last, hreplies, hbefore, hlast⟩ := r.closing
  simp only [flagged, messages, hreplies]
  clear hreplies
  induction before generalizing c with
  | nil => simp [Cut.push, hlast]
  | cons reply before ih =>
    rw [List.forall_mem_cons] at hbefore
    rw [List.cons_append, List.map_cons, List.foldl_cons, ih _ hbefore.2]
    simp [Cut.push, hbefore.1]

/-- Cutting gives one part a report. -/
theorem cutAfter_flatMap_flagged (reports : List EncodedReport) :
    cutAfter (reports.flatMap flagged) = ⟨reports.map messages, []⟩ := by
  suffices h : ∀ closed : List (List WorkerReply),
      (reports.flatMap flagged).foldl (fun c x => c.push x.1 x.2) (⟨closed, []⟩ : Cut WorkerReply) =
        ⟨closed ++ reports.map messages, []⟩ from h []
  induction reports with
  | nil => simp
  | cons r reports ih =>
    intro closed
    rw [List.flatMap_cons, List.foldl_append, foldl_push_flagged, ih]
    simp

/-- One group a report, each ending cleanly. -/
def plan (reports : List EncodedReport) : SplitPlan :=
  ⟨reports.map fun r => (r.messages, .ok ()), .ok ()⟩

/-- The plan for the stream of some reports has one group for each. -/
theorem splitPlan_stream (reports : List EncodedReport) :
    SplitPlan.of (stream reports) = plan reports := by
  simp only [SplitPlan.of, accept_stream, cutAfter_flatMap_flagged]
  simp [plan, Tracker.sequenceEnd, Tracker.start]

end EncodedReport

/-- Reports whose buffers were encoded and whose replies were sent one report after the other come
apart again, whatever the schedule. The caller is handed one group a report, in order, and reads in
it the replies of the report, which bring its buffers, and a clean end. After the last group the
sequence ends cleanly. The caller never reads anything else, and every schedule comes to an end
where it has read all of it. Every report can be encoded. -/
theorem Demux.separates_reports (reports : List EncodedReport) (es : List DemuxEvent) :
    let d := (start (EncodedReport.stream reports)).run es
    d.Follows (EncodedReport.plan reports) ∧
      (d.Settled → d.Complete (EncodedReport.plan reports)) ∧
      (∃ es', (d.run es').Settled) ∧
      (∀ r ∈ reports, (r.messages.filterMap WorkerReply.fragment?).map Fragment.data = r.buffers) ∧
      ∀ r : Report, ∃ e : EncodedReport, e.toReport = r := by
  have hsound := sound_run (EncodedReport.stream reports) es
  rw [← EncodedReport.splitPlan_stream]
  exact ⟨hsound.follows, hsound.complete, exists_settled _, fun r _ => r.data_messages,
    EncodedReport.exists_of_report⟩

end Sidecar
