import Sidecar.Splitter

/-!
# The plan of a split

What a split of a stream has to come to, read off the stream alone: the `Tracker` goes through the
replies as far as it accepts them (`Tracker.accept`), and these are cut after each reply that
completes a group (`cutAfter`). `SplitPlan.of` is what results: the replies of each group, how each
group ends, and how the sequence of groups ends. Neither queues nor a caller occur here.
-/

namespace Sidecar

/-- How a sequence ends for whoever reads it. -/
abbrev SequenceEnd := Except QueueError Unit

/-! ## Cutting -/

/-- A sequence that was cut: the parts that are closed, and what follows the last cut. -/
structure Cut (α : Type) where
  closed : List (List α)
  rest : List α

namespace Cut

variable {α : Type}

/-- Nothing was cut yet. -/
def empty : Cut α := ⟨[], []⟩

/-- One more element, after which there may be a cut. -/
def push (c : Cut α) (a : α) (completes : Bool) : Cut α :=
  if completes then ⟨c.closed ++ [c.rest ++ [a]], []⟩ else ⟨c.closed, c.rest ++ [a]⟩

/-- All parts, the open one included if something follows the last cut. -/
def parts (c : Cut α) : List (List α) := c.closed ++ if c.rest.isEmpty then [] else [c.rest]

end Cut

/-- Cut a sequence after each element that completes a part. -/
def cutAfter {α : Type} (xs : List (α × Bool)) : Cut α :=
  xs.foldl (fun c x => c.push x.1 x.2) .empty

/-! ## The plan -/

namespace Tracker

/-- Go through what arrives as far as it is accepted: the replies, each with whether it completes
its group, and the tracker after them or what has stopped it. -/
def accept (tracker : Tracker) :
    List (Except Cause WorkerReply) → List (WorkerReply × Bool) × Except QueueError Tracker
  | [] => ([], .ok tracker)
  | .error cause :: _ => ([], .error (Splitter.broken cause))
  | .ok reply :: rest =>
    match tracker.observe reply with
    | .error violation => ([], .error (.violation violation))
    | .ok (boundary, tracker) =>
      let (more, final) := accept tracker rest
      ((reply, boundary.completes) :: more, final)

/-- How the sequence of groups ends where a stream ends. -/
def sequenceEnd : Except QueueError Tracker → SequenceEnd
  | .error e => .error e
  | .ok tracker =>
    match tracker.opened with
    | some tag => .error (.violation (.unexpectedEnd tag.name))
    | none => .ok ()

end Tracker

/-- The groups of a stream, each with its replies and its end, and the end of the sequence of
groups. -/
structure SplitPlan where
  groups : List (List WorkerReply × SequenceEnd)
  outcome : SequenceEnd

/-- The replies of a stream before the first one that is refused and before the transport fails. -/
def acceptedReplies (items : List (Except Cause WorkerReply)) : List WorkerReply :=
  (Tracker.start.accept items).1.map Prod.fst

/-- The plan for a stream: its accepted replies, cut after each one that completes a group. A group
that is complete ends cleanly. One that is not ends as the sequence of groups does. -/
def SplitPlan.of (items : List (Except Cause WorkerReply)) : SplitPlan :=
  let (accepted, final) := Tracker.start.accept items
  let cut := cutAfter accepted
  let outcome := Tracker.sequenceEnd final
  ⟨cut.closed.map (·, .ok ()) ++ if cut.rest.isEmpty then [] else [(cut.rest, outcome)], outcome⟩

/-! ## What cutting keeps -/

namespace Cut

variable {α : Type}

theorem flatten_parts_push (c : Cut α) (a : α) (completes : Bool) :
    (c.push a completes).parts.flatten = c.parts.flatten ++ [a] := by
  obtain ⟨closed, rest⟩ := c
  cases completes <;> cases rest <;> simp [push, parts]

/-- One more element goes to the last part. -/
theorem parts_push (c : Cut α) (a : α) (completes : Bool) :
    (c.push a completes).parts = c.closed ++ [c.rest ++ [a]] := by
  cases completes <;> simp [push, parts]

theorem parts_of_rest_nil {c : Cut α} (h : c.rest = []) : c.parts = c.closed := by
  simp [parts, h]

theorem parts_of_rest_ne_nil {c : Cut α} (h : c.rest ≠ []) : c.parts = c.closed ++ [c.rest] := by
  simp [parts, h]

/-- A part is closed, or it is the open one. -/
theorem getElem?_parts {c : Cut α} {k : Nat} {part : List α} (h : c.parts[k]? = some part) :
    c.closed[k]? = some part ∨ (c.rest ≠ [] ∧ k = c.closed.length ∧ part = c.rest) := by
  by_cases hrest : c.rest = []
  · rw [parts_of_rest_nil hrest] at h
    exact .inl h
  · rw [parts_of_rest_ne_nil hrest] at h
    rcases Nat.lt_or_ge k c.closed.length with hk | hk
    · rw [List.getElem?_append_left hk] at h
      exact .inl h
    · rw [List.getElem?_append_right hk] at h
      obtain ⟨hk', rfl⟩ := List.getElem?_eq_some_iff.1 h
      simp only [List.length_singleton] at hk'
      exact .inr ⟨hrest, by omega, by simp⟩

/-- Each part is there after one more element, with that element at its end if it was open. -/
theorem getElem?_parts_push {c : Cut α} {k : Nat} {part : List α} (h : c.parts[k]? = some part)
    (a : α) (completes : Bool) :
    ∃ part', (c.push a completes).parts[k]? = some part' ∧ part <+: part' := by
  rw [parts_push]
  rcases getElem?_parts h with hclosed | ⟨-, rfl, rfl⟩
  · refine ⟨part, ?_, List.prefix_rfl⟩
    rw [List.getElem?_append_left (List.getElem?_eq_some_iff.1 hclosed).1, hclosed]
  · exact ⟨c.rest ++ [a], by simp, List.prefix_append _ _⟩

/-- A part that is closed stays as it is. -/
theorem getElem?_closed_push {c : Cut α} {k : Nat} {part : List α}
    (h : c.closed[k]? = some part) (a : α) (completes : Bool) :
    (c.push a completes).closed[k]? = some part := by
  cases completes with
  | true =>
    simp only [push, if_true]
    rw [List.getElem?_append_left (List.getElem?_eq_some_iff.1 h).1, h]
  | false => simpa [push] using h

end Cut

section
variable {α : Type}

theorem cutAfter_concat (xs : List (α × Bool)) (a : α) (completes : Bool) :
    cutAfter (xs ++ [(a, completes)]) = (cutAfter xs).push a completes := by
  simp [cutAfter]

/-- What holds of a cut and is kept by one more element holds when more elements have come. -/
theorem cutAfter_append_induct {motive : Cut α → Prop} (xs ys : List (α × Bool))
    (h : motive (cutAfter xs)) (hpush : ∀ c a completes, motive c → motive (c.push a completes)) :
    motive (cutAfter (xs ++ ys)) := by
  rw [cutAfter, List.foldl_append]
  show motive (ys.foldl (fun c x => c.push x.1 x.2) (cutAfter xs))
  generalize cutAfter xs = c at h
  induction ys generalizing c with
  | nil => exact h
  | cons y ys ih => exact ih (c.push y.1 y.2) (hpush c y.1 y.2 h)

/-- The parts put together are the whole sequence. -/
theorem flatten_parts_cutAfter (xs : List (α × Bool)) :
    (cutAfter xs).parts.flatten = xs.map Prod.fst := by
  suffices h : ∀ c : Cut α, (xs.foldl (fun c x => c.push x.1 x.2) c).parts.flatten =
      c.parts.flatten ++ xs.map Prod.fst by
    simpa [cutAfter, Cut.empty, Cut.parts] using h .empty
  induction xs with
  | nil => simp
  | cons x xs ih =>
    intro c
    rw [List.foldl_cons, ih, Cut.flatten_parts_push]
    simp

/-- A part of the sequence begins a part of every longer one. -/
theorem parts_cutAfter_append {xs : List (α × Bool)} {k : Nat} {part : List α}
    (h : (cutAfter xs).parts[k]? = some part) (ys : List (α × Bool)) :
    ∃ part', (cutAfter (xs ++ ys)).parts[k]? = some part' ∧ part <+: part' := by
  refine cutAfter_append_induct
    (motive := fun c => ∃ part', c.parts[k]? = some part' ∧ part <+: part') xs ys
    ⟨part, h, List.prefix_rfl⟩ ?_
  rintro c a completes ⟨part', hpart', hprefix⟩
  obtain ⟨part'', hpart'', hprefix'⟩ := Cut.getElem?_parts_push hpart' a completes
  exact ⟨part'', hpart'', hprefix.trans hprefix'⟩

/-- A closed part of the sequence is a closed part of every longer one. -/
theorem closed_cutAfter_append {xs : List (α × Bool)} {k : Nat} {part : List α}
    (h : (cutAfter xs).closed[k]? = some part) (ys : List (α × Bool)) :
    (cutAfter (xs ++ ys)).closed[k]? = some part :=
  cutAfter_append_induct (motive := fun c => c.closed[k]? = some part) xs ys h
    fun _ a completes hc => Cut.getElem?_closed_push hc a completes

end

end Sidecar
