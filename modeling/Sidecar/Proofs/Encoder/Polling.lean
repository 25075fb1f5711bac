import Sidecar.Encoder.Polling

/-!
# Framing on every schedule

Buffers arrive, the run ends and replies are asked for in any order (`EncoderEvent`). What a poll is
answered depends on no more than the buffers that have arrived, on whether the run is over, and on
how many polls were answered before (`Polled.due`, `PolledEncoder.answers_eq_due`). The end is
reported to one poll, and not to each that follows (`PolledEncoder.panics_past_end`).

A poll may be suspended with a buffer in its hands. Where it keeps the buffer makes no difference: a
polled encoder is an `Encoder` whose buffers are the one in its hands, the one it has looked at, and
those that have arrived (`PolledEncoder.toEncoder`), and until the end is reported a poll is
`Encoder.next` (`PolledEncoder.next_toEncoder`). The state of that encoder is known from the
schedule (`Encoder.Frames`).
-/

namespace Sidecar

/-! ## Schedules -/

/-- What can happen to an encoder: a buffer arrives, the run ends, the next reply is asked for. -/
inductive EncoderEvent where
  | feed (buffer : Bytes)
  | finish
  | poll

/-- The buffers that arrive in the course of some events. None does after the end of the run. -/
def buffersFed : List EncoderEvent → List Bytes
  | [] => []
  | .feed buffer :: es => buffer :: buffersFed es
  | .finish :: _ => []
  | .poll :: es => buffersFed es

/-- Does the run end in the course of some events? -/
def runEnds : List EncoderEvent → Bool
  | [] => false
  | .finish :: _ => true
  | .feed _ :: es | .poll :: es => runEnds es

/-- What is due after `i` answers, when some buffers have arrived. The buffer at `i` goes into a
reply once the next one has arrived or the run is over. The first reply names the key and the last
one says that it is the last. A run without buffers is a violation, and after the last reply, or
after the violation, there is nothing more. -/
def Framed.due (replyId key : String) (buffers : List Bytes) (closed : Bool) (i : Nat) : Framed :=
  match buffers[i]? with
  | some buffer =>
    let fragment := ⟨buffer, i + 1 = buffers.length⟩
    if i + 1 < buffers.length ∨ closed then
      .reply ⟨replyId, if i = 0 then .init key fragment else .data fragment⟩
    else .pending
  | none =>
    if closed then (if i = 0 then .violation .noData else .ended) else .pending

/-- What a poll is due to come to after `i` polls were answered. The poll after the last reply, or
after the violation, is the last that is answered. -/
def Polled.due (replyId key : String) (buffers : List Bytes) (closed : Bool) (i : Nat) : Polled :=
  if closed ∧ max buffers.length 1 < i then .panicked
  else .answered (.due replyId key buffers closed i)

namespace PolledEncoder

/-- What an event makes of an encoder. -/
def apply (e : PolledEncoder) : EncoderEvent → PolledEncoder
  | .feed buffer => e.feed buffer
  | .finish => e.finish
  | .poll => e.poll.2

/-- The encoder after some events. -/
def after (e : PolledEncoder) (es : List EncoderEvent) : PolledEncoder := es.foldl apply e

/-- What the polls among some events come to. A poll that is suspended is not answered yet. -/
def answers (e : PolledEncoder) : List EncoderEvent → List Polled
  | [] => []
  | .poll :: es =>
    if e.poll.1 = .answered .pending then answers e.poll.2 es else e.poll.1 :: answers e.poll.2 es
  | event :: es => answers (e.apply event) es

/-! ## A polled encoder is an encoder -/

/-- The encoder that keeps all buffers in one place. -/
def toEncoder (e : PolledEncoder) : Encoder :=
  ⟨e.replyId, e.key, e.taken.toList ++ (e.run.seen.toList ++ e.run.arrived), e.run.ended, e.done⟩

theorem toEncoder_feed (e : PolledEncoder) (buffer : Bytes) :
    (e.feed buffer).toEncoder = e.toEncoder.feed buffer := by
  unfold feed Encoder.feed
  cases hended : e.run.ended <;> simp [toEncoder, hended]

theorem next_toEncoder_proceed {e : PolledEncoder} (hdone : e.done = false) (buffer : Bytes) :
    { e with taken := some buffer }.toEncoder.next =
      ((e.proceed buffer).1, (e.proceed buffer).2.toEncoder) := by
  obtain ⟨replyId, key, ⟨arrived, ended, seen⟩, taken, done, spent⟩ := e
  cases hdone
  cases seen with
  | some next => cases key <;> rfl
  | none =>
    cases arrived with
    | cons next rest => cases key <;> rfl
    | nil => cases ended <;> cases key <;> rfl

/-- An encoder with a buffer in its hands has not framed its last one. -/
def Sound (e : PolledEncoder) : Prop := e.taken.isSome = true → e.done = false

theorem sound_proceed {e : PolledEncoder} (hdone : e.done = false) (buffer : Bytes) :
    (e.proceed buffer).2.Sound := by
  unfold proceed
  split
  · exact fun _ => hdone
  · exact nofun

/-- Going on to the next reply is what an encoder does that is asked for it. -/
theorem next_toEncoder {e : PolledEncoder} (h : e.Sound) :
    e.toEncoder.next = (e.advance.1, e.advance.2.toEncoder) ∧ e.advance.2.Sound := by
  obtain ⟨replyId, key, ⟨arrived, ended, seen⟩, taken, done, spent⟩ := e
  cases taken with
  | some buffer =>
    obtain rfl : done = false := h rfl
    exact ⟨next_toEncoder_proceed
      (e := ⟨replyId, key, ⟨arrived, ended, seen⟩, none, false, spent⟩) rfl buffer,
      sound_proceed rfl buffer⟩
  | none =>
    cases done with
    | true => exact ⟨rfl, nofun⟩
    | false =>
      -- Where there is a buffer it is taken, and the poll goes on with it in its hands.
      cases seen with
      | some buffer =>
        exact ⟨next_toEncoder_proceed
          (e := ⟨replyId, key, ⟨arrived, ended, none⟩, none, false, spent⟩) rfl buffer,
          sound_proceed rfl buffer⟩
      | none =>
        cases arrived with
        | cons buffer rest =>
          exact ⟨next_toEncoder_proceed
            (e := ⟨replyId, key, ⟨rest, ended, none⟩, none, false, spent⟩) rfl buffer,
            sound_proceed rfl buffer⟩
        | nil => cases ended <;> exact ⟨rfl, nofun⟩

end PolledEncoder

/-! ## The state of an encoder -/

namespace Framed

variable {replyId key : String} {buffers : List Bytes} {closed : Bool} {i : Nat}

/-- An answer that is due stays it, whatever arrives. -/
theorem due_append (h : due replyId key buffers closed i ≠ .pending) {more : List Bytes}
    (hmore : closed = true → more = []) (closed' : Bool) :
    due replyId key (buffers ++ more) (closed || closed') i = due replyId key buffers closed i := by
  cases closed with
  | true => rw [hmore rfl, List.append_nil, Bool.true_or]
  | false =>
    cases hbuffer : buffers[i]? with
    | none => simp [due, hbuffer] at h
    | some buffer =>
      have hi : i + 1 < buffers.length := by
        refine Nat.not_le.1 fun hle => h ?_
        simp [due, hbuffer, Nat.not_lt.2 hle]
      have hlt : i + 1 < (buffers ++ more).length := by
        rw [List.length_append]
        omega
      have hsame : (buffers ++ more)[i]? = some buffer := by
        rw [List.getElem?_append_left (by omega), hbuffer]
      have hlast : decide (i + 1 = buffers.length) = decide (i + 1 = (buffers ++ more).length) := by
        rw [decide_eq_false (Nat.ne_of_lt hi), decide_eq_false (Nat.ne_of_lt hlt)]
      simp only [due, hsame, hbuffer, hlt, hi, true_or, if_true, hlast]

/-- The reply at `i` carries the buffer at `i`, and whether there is a next one. -/
theorem due_reply {reply : KeyedReply} (h : due replyId key buffers closed i = .reply reply) :
    ∃ buffer, buffers[i]? = some buffer ∧
      reply = ⟨replyId, if i = 0 then .init key ⟨buffer, !buffers[i + 1]?.isSome⟩
        else .data ⟨buffer, !buffers[i + 1]?.isSome⟩⟩ := by
  cases hbuffer : buffers[i]? with
  | some buffer =>
    have hi := (List.getElem?_eq_some_iff.1 hbuffer).1
    have hlast : (!buffers[i + 1]?.isSome) = decide (i + 1 = buffers.length) := by
      grind
    simp only [due, hbuffer] at h
    split at h
    case isTrue => exact ⟨buffer, rfl, hlast ▸ (Framed.reply.inj h).symm⟩
    case isFalse => cases h
  | none =>
    simp only [due, hbuffer] at h
    split at h
    case isTrue => split at h <;> cases h
    case isFalse => cases h

/-- There is nothing more once the run is over and the last reply, or the violation, was given. -/
theorem due_eq_ended_iff :
    due replyId key buffers closed i = .ended ↔ closed = true ∧ max buffers.length 1 ≤ i := by
  cases hbuffer : buffers[i]? with
  | some buffer =>
    have hi := (List.getElem?_eq_some_iff.1 hbuffer).1
    refine iff_of_false (fun hended => ?_) fun ⟨_, hmax⟩ => ?_
    · simp only [due, hbuffer] at hended
      split at hended
      case isTrue => cases hended
      case isFalse => cases hended
    · omega
  | none =>
    have hi := List.getElem?_eq_none_iff.1 hbuffer
    simp only [due, hbuffer]
    cases closed with
    | false => simp
    | true =>
      by_cases hzero : i = 0
      · simp [hzero]
      · simp only [if_true, if_neg hzero, true_and, true_iff]
        omega

end Framed

namespace Polled

variable {replyId key : String} {buffers : List Bytes} {closed : Bool} {i : Nat}

/-- What is due stays due, whatever arrives. -/
theorem due_append (h : due replyId key buffers closed i ≠ .answered .pending) {more : List Bytes}
    (hmore : closed = true → more = []) (closed' : Bool) :
    due replyId key (buffers ++ more) (closed || closed') i = due replyId key buffers closed i := by
  cases closed with
  | true => rw [hmore rfl, List.append_nil, Bool.true_or]
  | false =>
    have hpending : Framed.due replyId key buffers false i ≠ .pending := fun heq =>
      h (by rw [due, if_neg (by simp), heq])
    have hi : i < buffers.length := by
      refine Nat.not_le.1 fun hle => hpending ?_
      simp [Framed.due, List.getElem?_eq_none hle]
    have hmax : ¬ max (buffers ++ more).length 1 < i := by
      rw [List.length_append]
      omega
    rw [due, due, if_neg fun h => hmax h.2, if_neg (by simp),
      Framed.due_append hpending hmore closed']

/-- A reply that is due is one that the buffers tell. -/
theorem due_eq_reply {reply : KeyedReply}
    (h : due replyId key buffers closed i = .answered (.reply reply)) :
    Framed.due replyId key buffers closed i = .reply reply := by
  unfold due at h
  split at h
  · cases h
  · exact Polled.answered.inj h

/-- The end is due to one poll. -/
theorem due_eq_ended_iff : due replyId key buffers closed i = .answered .ended ↔
    closed = true ∧ i = max buffers.length 1 := by
  unfold due
  split
  next hpast => exact iff_of_false nofun fun h => Nat.lt_irrefl _ (h.2 ▸ hpast.2)
  next hpast =>
    rw [Polled.answered.injEq, Framed.due_eq_ended_iff]
    refine ⟨fun h => ⟨h.1, ?_⟩, fun h => ⟨h.1, h.2 ▸ Nat.le_refl _⟩⟩
    have hle : ¬ max buffers.length 1 < i := fun hlt => hpast ⟨h.1, hlt⟩
    omega

end Polled

/-- What an encoder is like after some buffers have arrived and `n` polls were answered: the first
`n` buffers are framed, and no reply but the first names the key. At the end of the run it is done
when all buffers are framed, or when the violation was told. -/
inductive Encoder.Frames (replyId key : String) (buffers : List Bytes) (closed : Bool) (n : Nat) :
    Encoder → Prop where
  | going (hn : n = 0 ∨ n < buffers.length) :
    Frames replyId key buffers closed n
      ⟨replyId, if n = 0 then some key else none, buffers.drop n, closed, false⟩
  | finished {e : Encoder} (hclosed : closed = true) (hended : e.ended = true)
      (hdone : e.done = true) (hn : buffers.length ≤ n) (hpos : n ≠ 0) :
    Frames replyId key buffers closed n e

namespace Encoder.Frames

variable {replyId key : String} {buffers : List Bytes} {closed : Bool} {n : Nat} {e : Encoder}

/-- Whether the run is over is known. -/
theorem ended (h : Frames replyId key buffers closed n e) : e.ended = closed := by
  cases h with
  | going => rfl
  | finished hclosed hended => rw [hended, hclosed]

/-- More than the last reply, or the violation, is only told when the run is over, and it changes
nothing. -/
theorem past (h : Frames replyId key buffers closed n e) (hpast : max buffers.length 1 < n) :
    closed = true ∧ Frames replyId key buffers closed (n + 1) e := by
  cases h with
  | going hn => omega
  | finished hclosed hended hdone hn =>
    exact ⟨hclosed, .finished hclosed hended hdone (Nat.le_succ_of_le hn) (Nat.succ_ne_zero n)⟩

/-- A buffer arrives. -/
theorem feed (h : Frames replyId key buffers closed n e) (buffer : Bytes) :
    Frames replyId key (if closed then buffers else buffers ++ [buffer]) closed n
      (e.feed buffer) := by
  cases hclosed : closed with
  | true =>
    have hsame : e.feed buffer = e := by simp [Encoder.feed, h.ended, hclosed]
    rw [hsame, if_pos rfl, ← hclosed]
    exact h
  | false =>
    subst hclosed
    cases h with
    | finished hclosed => cases hclosed
    | going hn =>
      have hdrop : buffers.drop n ++ [buffer] = (buffers ++ [buffer]).drop n := by
        rw [List.drop_append_of_le_length (by omega)]
      simp only [Encoder.feed, Bool.false_eq_true, if_false, hdrop]
      refine .going (hn.imp_right fun hlt => ?_)
      rw [List.length_append]
      omega

/-- The run ends. -/
theorem finish (h : Frames replyId key buffers closed n e) :
    Frames replyId key buffers true n e.finish := by
  cases h with
  | going hn => exact .going hn
  | finished _ _ hdone hn hpos => exact .finished rfl rfl hdone hn hpos

/-- The next reply is asked for, and a buffer is at hand. It can be framed if another one follows or
the run is over. -/
theorem next_of_lt (hlt : n < buffers.length) {e : Encoder}
    (he : e = ⟨replyId, if n = 0 then some key else none, buffers.drop n, closed, false⟩) :
    e.next.1 = Framed.due replyId key buffers closed n ∧
      Frames replyId key buffers closed (if e.next.1 = .pending then n else n + 1) e.next.2 := by
  have hstays : Frames replyId key buffers closed n e := he ▸ .going (.inr hlt)
  have hbuffer : buffers[n]? = some buffers[n] := List.getElem?_eq_getElem hlt
  have hframe (fragment : Fragment) : e.frame fragment =
      ⟨replyId, if n = 0 then .init key fragment else .data fragment⟩ := by
    rw [he]
    cases n <;> rfl
  have hdrop : buffers.drop n = buffers[n] :: buffers.drop (n + 1) := List.drop_eq_getElem_cons hlt
  match hrest : buffers.drop (n + 1) with
  | following :: rest =>
    have hmore : n + 1 < buffers.length := by
      refine Nat.not_le.1 fun hle => ?_
      rw [List.drop_eq_nil_of_le hle] at hrest
      cases hrest
    have hnext : e.next = (.reply (e.frame ⟨buffers[n], false⟩),
        ⟨replyId, none, buffers.drop (n + 1), closed, false⟩) := by
      rw [hrest] at hdrop ⊢
      simp [Encoder.next, he, hdrop]
    rw [hnext, hframe]
    exact ⟨by simp [Framed.due, hbuffer, hmore, Nat.ne_of_lt hmore], .going (.inr hmore)⟩
  | [] =>
    have hlast : n + 1 = buffers.length := by
      have := List.drop_eq_nil_iff.1 hrest
      omega
    rw [hrest] at hdrop
    cases closed with
    | true =>
      have hnext : e.next = (.reply (e.frame ⟨buffers[n], true⟩),
          ⟨replyId, none, [], true, true⟩) := by
        simp [Encoder.next, he, hdrop]
      rw [hnext, hframe]
      exact ⟨by simp [Framed.due, hbuffer, hlast],
        .finished rfl rfl rfl (Nat.le_of_eq hlast.symm) (Nat.succ_ne_zero n)⟩
    | false =>
      have hnext : e.next = (.pending, e) := by simp [Encoder.next, he, hdrop]
      rw [hnext]
      exact ⟨by simp [Framed.due, hbuffer, hlast], hstays⟩

/-- The next reply is asked for, and the run has not brought any buffer. If it is over, that is a
violation. -/
theorem next_of_nil {e : Encoder} (he : e = ⟨replyId, some key, [], closed, false⟩) :
    e.next.1 = Framed.due replyId key [] closed 0 ∧
      Frames replyId key [] closed (if e.next.1 = .pending then 0 else 1) e.next.2 := by
  subst he
  cases closed with
  | true => exact ⟨rfl, .finished rfl rfl rfl (Nat.zero_le _) (Nat.succ_ne_zero 0)⟩
  | false => exact ⟨rfl, .going (.inl rfl)⟩

/-- The next reply is asked for. -/
theorem next (h : Frames replyId key buffers closed n e) :
    e.next.1 = Framed.due replyId key buffers closed n ∧
      Frames replyId key buffers closed (if e.next.1 = .pending then n else n + 1) e.next.2 := by
  cases h with
  | finished hclosed hended hdone hn hpos =>
    have hnext : e.next = (.ended, e) := by simp [Encoder.next, hdone]
    have hnone : buffers[n]? = none := List.getElem?_eq_none hn
    rw [hnext]
    exact ⟨by simp [Framed.due, hnone, hclosed, hpos],
      .finished hclosed hended hdone (Nat.le_succ_of_le hn) (Nat.succ_ne_zero n)⟩
  | going hn =>
    rcases Nat.lt_or_ge n buffers.length with hlt | hle
    · exact next_of_lt hlt rfl
    · -- Only a run that has brought nothing yet is all framed and not done.
      obtain rfl : n = 0 := by omega
      obtain rfl : buffers = [] := List.eq_nil_of_length_eq_zero (Nat.le_zero.1 hle)
      exact next_of_nil rfl

end Encoder.Frames

/-! ## Runs of a schedule -/

namespace PolledEncoder

/-- An encoder that has come as far as it should: what is told of it is true of the encoder that
keeps all buffers in one place, and it is used up once the end was reported. -/
structure Keeps (replyId key : String) (buffers : List Bytes) (closed : Bool) (n : Nat)
    (e : PolledEncoder) : Prop where
  sound : e.Sound
  frames : Encoder.Frames replyId key buffers closed n e.toEncoder
  spent : e.spent = true ↔ closed = true ∧ max buffers.length 1 < n

variable {replyId key : String} {buffers : List Bytes} {closed : Bool} {n : Nat} {e : PolledEncoder}

theorem Keeps.start (replyId key : String) :
    Keeps replyId key [] false 0 (start replyId key) where
  sound := nofun
  frames := .going (.inl rfl)
  spent := iff_of_false nofun nofun

theorem Keeps.feed (h : Keeps replyId key buffers closed n e) (buffer : Bytes) :
    Keeps replyId key (if closed then buffers else buffers ++ [buffer]) closed n
      (e.feed buffer) where
  sound := by
    have hsound := h.sound
    unfold PolledEncoder.feed
    split
    · exact hsound
    · exact hsound
  frames := toEncoder_feed e buffer ▸ h.frames.feed buffer
  spent := by
    have hspent : (e.feed buffer).spent = e.spent := by
      unfold PolledEncoder.feed
      split <;> rfl
    rw [hspent, h.spent]
    cases closed with
    | true => rfl
    | false => simp

theorem Keeps.finish (h : Keeps replyId key buffers closed n e) :
    Keeps replyId key buffers true n e.finish where
  sound := h.sound
  frames := h.frames.finish
  spent := h.spent.trans
    ⟨fun hspent => ⟨rfl, hspent.2⟩, fun hspent => ⟨(h.frames.past hspent.2).1, hspent.2⟩⟩

theorem Keeps.poll (h : Keeps replyId key buffers closed n e) :
    e.poll.1 = Polled.due replyId key buffers closed n ∧
      Keeps replyId key buffers closed (if e.poll.1 = .answered .pending then n else n + 1)
        e.poll.2 := by
  unfold PolledEncoder.poll Polled.due
  by_cases hspent : e.spent = true
  · have hpast := h.spent.1 hspent
    rw [if_pos hspent, if_pos hpast, if_neg nofun]
    exact ⟨rfl, h.sound, (h.frames.past hpast.2).2,
      iff_of_true hspent ⟨hpast.1, Nat.lt_succ_of_lt hpast.2⟩⟩
  · have hpast := fun hpast => hspent (h.spent.2 hpast)
    obtain ⟨hnext, hsound⟩ := next_toEncoder h.sound
    obtain ⟨hdue, hframes⟩ := h.frames.next
    rw [hnext] at hframes
    replace hdue : e.advance.1 = Framed.due replyId key buffers closed n :=
      (congrArg Prod.fst hnext).symm.trans hdue
    rw [if_neg hspent, if_neg hpast]
    simp only [Polled.answered.injEq]
    refine ⟨hdue, hsound, hframes, ?_⟩
    · show decide (e.advance.1 = .ended) = true ↔ _
      have hended : Framed.due replyId key buffers closed n = .ended ↔
          closed = true ∧ max buffers.length 1 ≤ n := Framed.due_eq_ended_iff
      rw [decide_eq_true_iff, hdue, hended]
      split
      next hpending =>
        refine iff_of_false (fun hmax => ?_) hpast
        rw [hended.2 hmax] at hpending
        cases hpending
      next => rw [Nat.lt_succ_iff]

/-- A schedule takes the encoder on, and its polls are answered what they are due. An answer that
was due when it was given is due at the end of the schedule too. -/
theorem Keeps.after (h : Keeps replyId key buffers closed n e) (es : List EncoderEvent) :
    Keeps replyId key (buffers ++ if closed then [] else buffersFed es) (closed || runEnds es)
        (n + (e.answers es).length) (e.after es) ∧
      ∀ i answer, (e.answers es)[i]? = some answer →
        answer = Polled.due replyId key (buffers ++ if closed then [] else buffersFed es)
          (closed || runEnds es) (n + i) := by
  induction es generalizing buffers closed n e with
  | nil => exact ⟨by simpa [PolledEncoder.after, answers, buffersFed, runEnds] using h, nofun⟩
  | cons event es ih =>
    cases event with
    | feed buffer =>
      have hnext := ih (h.feed buffer)
      cases closed with
      | true => exact hnext
      | false =>
        simp only [Bool.false_eq_true, if_false, List.append_assoc] at hnext
        exact hnext
    | finish =>
      have hnext := ih h.finish
      cases closed with
      | true => exact hnext
      | false => exact hnext
    | poll =>
      obtain ⟨hdue, hpoll⟩ := h.poll
      by_cases hpending : e.poll.1 = .answered .pending
      · rw [if_pos hpending] at hpoll
        have hanswers : e.answers (.poll :: es) = e.poll.2.answers es := by
          simp [answers, hpending]
        rw [hanswers]
        exact ih hpoll
      · rw [if_neg hpending] at hpoll
        have hanswers : e.answers (.poll :: es) = e.poll.1 :: e.poll.2.answers es := by
          simp [answers, hpending]
        obtain ⟨hkeeps, hheard⟩ := ih hpoll
        rw [hanswers]
        refine ⟨?_, fun i answer hi => ?_⟩
        · rw [List.length_cons, ← Nat.succ_add_eq_add_succ]
          exact hkeeps
        · cases i with
          | zero =>
            obtain rfl : e.poll.1 = answer := Option.some.inj hi
            rw [hdue] at hpending ⊢
            refine (Polled.due_append hpending (fun hclosed => ?_) (runEnds es)).symm
            rw [hclosed, if_pos rfl]
          | succ i =>
            rw [hheard i answer hi, Nat.succ_add_eq_add_succ]
            rfl

/-- However the buffers, the end of the run and the polls come together, a poll comes to what is due
from the buffers that have arrived, and so did each poll before it. The reply that carries a buffer
is the same in all runs that bring that buffer and agree on whether another one follows. The end is
reported to the poll after the last reply, or after the violation, and to no other. -/
theorem answers_eq_due (replyId key : String) (es : List EncoderEvent) :
    (((start replyId key).after es).poll.1 = Polled.due replyId key (buffersFed es) (runEnds es)
        ((start replyId key).answers es).length) ∧
      (∀ i answer, ((start replyId key).answers es)[i]? = some answer →
        answer = Polled.due replyId key (buffersFed es) (runEnds es) i) ∧
      (∀ (es' : List EncoderEvent) (i : Nat) (reply reply' : KeyedReply),
        ((start replyId key).answers es)[i]? = some (.answered (.reply reply)) →
        ((start replyId key).answers es')[i]? = some (.answered (.reply reply')) →
        (buffersFed es)[i]? = (buffersFed es')[i]? →
        ((buffersFed es)[i + 1]?.isSome = (buffersFed es')[i + 1]?.isSome) →
        reply = reply') ∧
      ∀ i answer, ((start replyId key).answers es)[i]? = some answer →
        (answer = .answered .ended ↔ runEnds es = true ∧ i = max (buffersFed es).length 1) := by
  have hkeeps := fun es => (Keeps.start replyId key).after es
  simp only [Bool.false_eq_true, if_false, List.nil_append, Bool.false_or, Nat.zero_add] at hkeeps
  refine ⟨(hkeeps es).1.poll.1, (hkeeps es).2, ?_, fun i answer hi => ?_⟩
  · intro es' i reply reply' hreply hreply' hbuffer hmore
    obtain ⟨buffer, hat, rfl⟩ :=
      Framed.due_reply (Polled.due_eq_reply ((hkeeps es).2 i _ hreply).symm)
    obtain ⟨buffer', hat', rfl⟩ :=
      Framed.due_reply (Polled.due_eq_reply ((hkeeps es').2 i _ hreply').symm)
    obtain rfl : buffer = buffer' := Option.some.inj (hat.symm.trans (hbuffer.trans hat'))
    rw [hmore]
  · rw [(hkeeps es).2 i answer hi]
    exact Polled.due_eq_ended_iff

/-- A run without buffers has ended. The first poll is told the violation and the second one that
there is nothing more, but not every poll from then on: the third one panics. -/
theorem panics_past_end :
    (start "reply" "key").answers [.finish, .poll, .poll, .poll] =
      [.answered (.violation .noData), .answered .ended, .panicked] ∧
    ¬ ∀ (replyId key : String) (es : List EncoderEvent), runEnds es = true →
      ∀ i answer, max (buffersFed es).length 1 ≤ i →
        ((start replyId key).answers es)[i]? = some answer → answer = .answered .ended := by
  refine ⟨rfl, fun hends => ?_⟩
  have hthird := hends "reply" "key" [.finish, .poll, .poll, .poll] rfl 2 .panicked
    (by decide) rfl
  cases hthird

/-- A poll that is suspended with a buffer in its hands loses nothing. -/
example (b c : Bytes) :
    (start "reply" "key").answers
        [.feed b, .poll, .feed c, .poll, .poll, .finish, .poll, .poll] =
      [.answered (.reply ⟨"reply", .init "key" ⟨b, false⟩⟩),
        .answered (.reply ⟨"reply", .data ⟨c, true⟩⟩), .answered .ended] := rfl

end PolledEncoder

end Sidecar
