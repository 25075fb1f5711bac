import Sidecar.Proofs.Splitting.Plan

/-!
# What the tracker accepts

How the `Tracker` goes through a stream, and what this says about the plan: which reply opens a
group and which completes one (`Tracker.observe_boundary`), how far it has come at a time
(`Tracker.Accepting`), and when a whole stream is accepted with no group left open
(`SplitPlan.outcome_eq_ok_iff`).
-/

namespace Sidecar

/-! ## The tracker -/

namespace Tracker

/-- What a reply does once it is known whether it starts its group. -/
def closing (starts armed : Bool) (kind : ReplyKind) : Except Violation (Boundary × Tracker) :=
  (completion armed kind).map fun done =>
    (⟨starts, done.1⟩, if done.1 then ⟨none, false⟩ else ⟨some kind.tag, done.2⟩)

theorem observe_eq (tracker : Tracker) (reply : WorkerReply) :
    tracker.observe reply =
      match reply.kind with
      | none => .error (.unknownCase "None")
      | some kind =>
        match tracker.opened with
        | none => closing true false kind
        | some tag =>
          if tag = kind.tag then closing false tracker.lastTaskArmed kind
          else .error (.interleaved tag kind.tag) := by
  unfold observe
  cases reply.kind with
  | none => rfl
  | some kind =>
    cases tracker.opened with
    | none =>
      show (completion false kind >>= _) = closing true false kind
      unfold closing
      cases completion false kind <;> rfl
    | some tag =>
      simp only
      split
      · show (completion tracker.lastTaskArmed kind >>= _) = closing false _ kind
        unfold closing
        cases completion tracker.lastTaskArmed kind <;> rfl
      · rfl

theorem closing_eq_ok {starts armed : Bool} {kind : ReplyKind} {boundary : Boundary}
    {tracker' : Tracker} (h : closing starts armed kind = .ok (boundary, tracker')) :
    boundary.starts = starts ∧ tracker'.opened.isSome = !boundary.completes := by
  unfold closing at h
  cases hcompletion : completion armed kind with
  | error violation =>
    rw [hcompletion] at h
    cases h
  | ok done =>
    rw [hcompletion] at h
    cases h
    cases done.1 <;> exact ⟨rfl, rfl⟩

/-- A reply opens a group where none is open. After it none is open if it completes its group. -/
theorem observe_boundary {tracker tracker' : Tracker} {reply : WorkerReply} {boundary : Boundary}
    (h : tracker.observe reply = .ok (boundary, tracker')) :
    boundary.starts = tracker.opened.isNone ∧ tracker'.opened.isSome = !boundary.completes := by
  rw [observe_eq] at h
  split at h
  · cases h
  · split at h
    next hopened =>
      rw [hopened]
      exact closing_eq_ok h
    next tag hopened =>
      split at h
      · rw [hopened]
        exact closing_eq_ok h
      · cases h

/-- The tracker has accepted some replies of a stream, and goes on with what is left of it. -/
def Accepting (items : List (Except Cause WorkerReply)) (taken : List (WorkerReply × Bool))
    (tracker : Tracker) (left : List (Except Cause WorkerReply)) : Prop :=
  Tracker.start.accept items = (taken ++ (tracker.accept left).1, (tracker.accept left).2)

namespace Accepting

variable {items left : List (Except Cause WorkerReply)} {taken : List (WorkerReply × Bool)}
  {tracker : Tracker}

/-- At the beginning all of the stream is left. -/
theorem start (items : List (Except Cause WorkerReply)) :
    Accepting items [] Tracker.start items := rfl

/-- The tracker accepts the next reply. -/
theorem snoc {reply : WorkerReply} {boundary : Boundary} {tracker' : Tracker}
    (h : Accepting items taken tracker (.ok reply :: left))
    (hobserve : tracker.observe reply = .ok (boundary, tracker')) :
    Accepting items (taken ++ [(reply, boundary.completes)]) tracker' left := by
  unfold Accepting at h ⊢
  simp [h, accept, hobserve]

/-- The tracker refuses the next reply. -/
theorem refused {reply : WorkerReply} {violation : Violation}
    (h : Accepting items taken tracker (.ok reply :: left))
    (hobserve : tracker.observe reply = .error violation) :
    Tracker.start.accept items = (taken, .error (.violation violation)) := by
  unfold Accepting at h
  simp [h, accept, hobserve]

/-- The transport fails. -/
theorem broken {cause : Cause} (h : Accepting items taken tracker (.error cause :: left)) :
    Tracker.start.accept items = (taken, .error (Splitter.broken cause)) := by
  unfold Accepting at h
  simp [h, accept]

/-- The stream ends. -/
theorem ended (h : Accepting items taken tracker []) :
    Tracker.start.accept items = (taken, .ok tracker) := by
  unfold Accepting at h
  simp [h, accept]

end Accepting

/-- A tracker that is not stopped accepts everything. A group is open at the end exactly if the last
reply did not complete its group. -/
theorem accept_ok {tracker tracker' : Tracker} {items : List (Except Cause WorkerReply)}
    {taken : List (WorkerReply × Bool)} (h : tracker.accept items = (taken, .ok tracker'))
    (cut : Cut WorkerReply) (hcut : tracker.opened.isSome = !cut.rest.isEmpty) :
    items = taken.map (fun x => .ok x.1) ∧
      tracker'.opened.isSome = !(taken.foldl (fun c x => c.push x.1 x.2) cut).rest.isEmpty := by
  induction items generalizing tracker taken cut with
  | nil =>
    cases h
    exact ⟨rfl, hcut⟩
  | cons item items ih =>
    cases item with
    | error cause => cases h
    | ok reply =>
      simp only [accept] at h
      split at h
      next => cases h
      next boundary next hobserve =>
        obtain ⟨-, hopened⟩ := observe_boundary hobserve
        cases haccept : next.accept items with
        | mk more final =>
          rw [haccept] at h
          cases h
          have hpush : next.opened.isSome = !(cut.push reply boundary.completes).rest.isEmpty := by
            rw [hopened]
            cases boundary.completes <;> simp [Cut.push]
          obtain ⟨hitems, hend⟩ := ih haccept _ hpush
          exact ⟨by rw [hitems]; rfl, hend⟩

/-- A tracker that is not stopped goes on with what comes afterwards. -/
theorem accept_append {tracker tracker' : Tracker} {items : List (Except Cause WorkerReply)}
    {taken : List (WorkerReply × Bool)} (h : tracker.accept items = (taken, .ok tracker'))
    (more : List (Except Cause WorkerReply)) :
    tracker.accept (items ++ more) =
      (taken ++ (tracker'.accept more).1, (tracker'.accept more).2) := by
  induction items generalizing tracker taken with
  | nil =>
    cases h
    rfl
  | cons item items ih =>
    cases item with
    | error cause => cases h
    | ok reply =>
      simp only [accept, List.cons_append] at h ⊢
      split at h
      next => cases h
      next boundary next hobserve =>
        cases haccept : next.accept items with
        | mk rest final =>
          rw [haccept] at h
          cases h
          simp only [ih haccept]
          rfl

/-- A tracker that is stopped leaves something that it did not accept. -/
theorem length_accept_lt {tracker : Tracker} {items : List (Except Cause WorkerReply)}
    {taken : List (WorkerReply × Bool)} {e : QueueError}
    (h : tracker.accept items = (taken, .error e)) : taken.length < items.length := by
  induction items generalizing tracker taken with
  | nil => cases h
  | cons item items ih =>
    cases item with
    | error cause =>
      cases h
      exact Nat.succ_pos _
    | ok reply =>
      simp only [accept] at h
      split at h
      next =>
        cases h
        exact Nat.succ_pos _
      next boundary next hobserve =>
        cases haccept : next.accept items with
        | mk more final =>
          rw [haccept] at h
          cases h
          exact Nat.succ_lt_succ (ih haccept)

end Tracker

/-! ## The plan as a whole -/

namespace SplitPlan

variable {items : List (Except Cause WorkerReply)} {accepted : List (WorkerReply × Bool)}
  {final : Except QueueError Tracker}

theorem outcome_of (h : Tracker.start.accept items = (accepted, final)) :
    (SplitPlan.of items).outcome = Tracker.sequenceEnd final := by
  simp [SplitPlan.of, h]

/-- The groups of a plan are the parts of what is accepted. -/
theorem map_fst_groups (h : Tracker.start.accept items = (accepted, final)) :
    (SplitPlan.of items).groups.map Prod.fst = (cutAfter accepted).parts := by
  simp only [SplitPlan.of, h, Cut.parts, List.map_append, List.map_map]
  congr 1
  · simp [Function.comp_def]
  · split <;> rfl

/-- A closed part is a group that ends cleanly. -/
theorem getElem?_groups_closed (h : Tracker.start.accept items = (accepted, final)) {k : Nat}
    {part : List WorkerReply} (hpart : (cutAfter accepted).closed[k]? = some part) :
    (SplitPlan.of items).groups[k]? = some (part, .ok ()) := by
  simp only [SplitPlan.of, h]
  rw [List.getElem?_append_left, List.getElem?_map, hpart]
  · rfl
  · simpa using (List.getElem?_eq_some_iff.1 hpart).1

/-- The open part is a group that ends as the sequence of groups does. -/
theorem getElem?_groups_rest (h : Tracker.start.accept items = (accepted, final))
    (hrest : (cutAfter accepted).rest ≠ []) :
    (SplitPlan.of items).groups[(cutAfter accepted).closed.length]? =
      some ((cutAfter accepted).rest, (SplitPlan.of items).outcome) := by
  have hempty : (cutAfter accepted).rest.isEmpty = false := by simpa using hrest
  simp [SplitPlan.of, h, hempty]

/-- The groups put together are the accepted replies. -/
theorem flatten_groups (items : List (Except Cause WorkerReply)) :
    ((SplitPlan.of items).groups.map Prod.fst).flatten = acceptedReplies items := by
  rw [map_fst_groups rfl, flatten_parts_cutAfter]
  rfl

example (cause : Cause) :
    let resource := WorkerReply.ofKind "a" (.resource "key")
    let part := WorkerReply.ofKind "b" (.output (some (.data ⟨[1], false⟩)))
    let broken := .error (Splitter.broken cause)
    SplitPlan.of [.ok resource, .ok part, .error cause] =
      ⟨[([resource], .ok ()), ([part], broken)], broken⟩ := rfl

/-- The sequence of groups ends cleanly exactly if all of the stream is accepted, and the last reply
completes its group. -/
theorem outcome_eq_ok_iff (items : List (Except Cause WorkerReply)) :
    (SplitPlan.of items).outcome = .ok () ↔
      items = (acceptedReplies items).map .ok ∧
        (cutAfter (Tracker.start.accept items).1).rest = [] := by
  unfold acceptedReplies
  cases haccept : Tracker.start.accept items with
  | mk taken final =>
    rw [outcome_of haccept]
    cases final with
    | error e =>
      refine ⟨nofun, ?_⟩
      intro h
      obtain ⟨hitems, -⟩ := h
      have hlength := congrArg List.length hitems
      have hlt := Tracker.length_accept_lt haccept
      simp only [List.length_map] at hlength
      omega
    | ok tracker =>
      obtain ⟨hitems, hopened⟩ := Tracker.accept_ok haccept .empty rfl
      change tracker.opened.isSome = !(cutAfter taken).rest.isEmpty at hopened
      have hall : items = (taken.map Prod.fst).map .ok := by
        rw [hitems, List.map_map]
        rfl
      cases htag : tracker.opened with
      | none => simpa [Tracker.sequenceEnd, htag, ← hall] using hopened
      | some tag => simpa [Tracker.sequenceEnd, htag, ← hall] using hopened

end SplitPlan

end Sidecar
