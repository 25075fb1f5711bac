import Sidecar.Proofs.Splitting.Grouping

/-!
# A refused reply leaves no trace

`Tracker.observeInPlace` changes the tracker step by step, and a reply can be refused after the
first of these steps: where no group is open, the mark of the last task is wiped before the reply is
looked into. That a refused reply still leaves the tracker as it was rests on what the tracker can
be like at all. It always remembers what its open group amounts to (`Tracker.Remembers`), so where
no group is open there is no mark to be wiped, and there `Tracker.observeInPlace` does the same as
`Tracker.observe` (`Tracker.run_observeInPlace`).
-/

namespace Sidecar

namespace Tracker

/-! ## Some replies, one after the other -/

/-- What a tracker answers to some replies. It goes on after those that it refuses. -/
def answersInPlace (tracker : Tracker) : List WorkerReply → List (Except Violation Boundary)
  | [] => []
  | reply :: replies =>
    ((observeInPlace reply).run.run tracker).1 ::
      answersInPlace ((observeInPlace reply).run.run tracker).2 replies

/-- The tracker after some replies, be they accepted or refused. -/
def afterInPlace (tracker : Tracker) (replies : List WorkerReply) : Tracker :=
  replies.foldl (fun tracker reply => ((observeInPlace reply).run.run tracker).2) tracker

/-! ## One reply -/

/-- The reply to a request that takes a single message completes it. -/
theorem completion_of_isSingleMessage {kind : ReplyKind} (h : kind.tag.isSingleMessage = true)
    (armed : Bool) : completion armed kind = .ok (true, armed) := by
  cases kind with
  | resource | commonData | directData | createSmallTask => rfl
  | output | result | createLargeTask => cases h

theorem run_completing (tracker : Tracker) (kind : ReplyKind) :
    (completing kind).run.run tracker =
      match completion tracker.lastTaskArmed kind with
      | .error violation => (.error violation, tracker)
      | .ok (completes, armed) => (.ok completes, { tracker with lastTaskArmed := armed }) := by
  have hrun : (completing kind).run.run tracker =
      (do
        let done ← MonadExcept.ofExcept (completion tracker.lastTaskArmed kind)
        modify ({ · with lastTaskArmed := done.2 })
        return done.1 : ExceptT Violation (StateM Tracker) Bool).run.run tracker := rfl
  rw [hrun]
  cases completion tracker.lastTaskArmed kind <;> rfl

/-- Once it is known whether the reply starts its group, nothing is changed before it is
accepted. -/
theorem run_closeInPlace (tracker : Tracker) (starts : Bool) (kind : ReplyKind) :
    (closeInPlace starts kind).run.run tracker =
      match closing starts tracker.lastTaskArmed kind with
      | .error violation => (.error violation, tracker)
      | .ok (boundary, after) => (.ok boundary, after) := by
  unfold closeInPlace closing
  cases hsingle : kind.tag.isSingleMessage with
  | true =>
    rw [completion_of_isSingleMessage hsingle]
    rfl
  | false =>
    simp only [Bool.false_eq_true, if_false, ExceptT.run_bind, StateT.run_bind, run_completing]
    cases completion tracker.lastTaskArmed kind with
    | error violation => rfl
    | ok done =>
      obtain ⟨completes, armed⟩ := done
      cases completes <;> rfl

/-- In place the same happens, as long as no mark is left where no group is open. -/
theorem run_observeInPlace {tracker : Tracker} (reply : WorkerReply)
    (hclear : tracker.opened = none → tracker.lastTaskArmed = false) :
    (observeInPlace reply).run.run tracker =
      match tracker.observe reply with
      | .error violation => (.error violation, tracker)
      | .ok (boundary, after) => (.ok boundary, after) := by
  obtain ⟨opened, armed⟩ := tracker
  obtain ⟨id, token, kind⟩ := reply
  rw [observe_eq]
  cases kind with
  | none => rfl
  | some kind =>
    cases opened with
    | none =>
      cases hclear rfl
      exact run_closeInPlace ⟨none, false⟩ true kind
    | some tag =>
      have hrun : (observeInPlace ⟨id, token, some kind⟩).run.run ⟨some tag, armed⟩ =
          (do
            let starts ← if tag = kind.tag then pure false else throw (.interleaved tag kind.tag)
            if starts then modify ({ · with lastTaskArmed := false })
            closeInPlace starts kind :
              ExceptT Violation (StateM Tracker) Boundary).run.run ⟨some tag, armed⟩ := rfl
      rw [hrun]
      by_cases hsame : tag = kind.tag
      · simp only [if_pos hsame]
        exact run_closeInPlace ⟨some tag, armed⟩ false kind
      · simp only [if_neg hsame]
        rfl

/-! ## What the tracker can be like -/

namespace Remembers

variable {tracker : Tracker} {group : List WorkerReply}

/-- The mark of the last task is set only while large tasks are being created. -/
theorem opened_of_armed (h : tracker.Remembers group) (harmed : tracker.lastTaskArmed = true) :
    tracker.opened = some .createLargeTask := by
  obtain ⟨reply, hreply, task, hkind, -⟩ := h.armed.1 harmed
  rw [← h.tag reply hreply, WorkerReply.tag?, hkind]
  rfl

/-- No mark is left where no group is open. -/
theorem clear (h : tracker.Remembers group) (hopened : tracker.opened = none) :
    tracker.lastTaskArmed = false := by
  refine Bool.eq_false_iff.2 fun harmed => ?_
  rw [h.opened_of_armed harmed] at hopened
  cases hopened

/-- A reply that is looked at in place is remembered if it is accepted, and else forgotten. -/
theorem inPlace (h : tracker.Remembers group) (reply : WorkerReply) :
    ∃ group', ((observeInPlace reply).run.run tracker).2.Remembers group' := by
  rw [run_observeInPlace reply h.clear]
  cases hobserve : tracker.observe reply with
  | error violation => exact ⟨group, h⟩
  | ok done => exact ⟨_, (h.observe hobserve).2.2.2⟩

/-- Whatever came before, the tracker remembers its open group. -/
theorem afterInPlace (h : tracker.Remembers group) (replies : List WorkerReply) :
    ∃ group', (tracker.afterInPlace replies).Remembers group' := by
  induction replies generalizing tracker group with
  | nil => exact ⟨group, h⟩
  | cons reply replies ih =>
    obtain ⟨group', hnext⟩ := h.inPlace reply
    exact ih hnext

end Remembers

/-- **A refused reply leaves no trace.** Whatever a tracker has accepted and refused before, a reply
that it refuses leaves it as it was, and all that follow are answered as if the refused one had not
been. The mark of the last task is set only while large tasks are being created. -/
theorem refused_leaves_no_trace (replies : List WorkerReply) :
    let tracker := Tracker.start.afterInPlace replies
    (∀ reply violation, ((observeInPlace reply).run.run tracker).1 = .error violation →
      ((observeInPlace reply).run.run tracker).2 = tracker ∧
        ∀ more, tracker.answersInPlace (reply :: more) =
          .error violation :: tracker.answersInPlace more) ∧
    (tracker.lastTaskArmed = true → tracker.opened = some .createLargeTask) := by
  intro tracker
  obtain ⟨group, hremembers⟩ := Remembers.start.afterInPlace replies
  refine ⟨?_, hremembers.opened_of_armed⟩
  intro reply violation hrefused
  have hsame : ((observeInPlace reply).run.run tracker).2 = tracker := by
    rw [run_observeInPlace reply hremembers.clear] at hrefused ⊢
    cases hobserve : tracker.observe reply with
    | error violation => rfl
    | ok done =>
      rw [hobserve] at hrefused
      cases hrefused
  refine ⟨hsame, fun more => ?_⟩
  rw [answersInPlace, hsame, hrefused]

/-- A mark without an open group would be wiped by a reply that is refused. -/
example :
    let reply := WorkerReply.ofKind "r" (.output none)
    (observeInPlace reply).run.run ⟨none, true⟩ =
      (.error (.unknownCase "Output.None"), ⟨none, false⟩) := rfl

end Tracker

end Sidecar
