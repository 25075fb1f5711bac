import Sidecar.Agent.Basic

/-!
# Verdicts on streams

The outcome of a streaming call hangs on the first element of its stream that decides it. Until
then the stream only asks for more, which `Verdict.undecided` collects beside the state the order of
messages has reached. `scanStream` looks for the first element that decides.
-/

namespace Sidecar

/-- What a part of a stream comes to: nothing is decided yet, one of its elements decides the
outcome, or its last message completes what was asked for. -/
inductive Verdict (σ β ρ γ : Type) where
  | undecided (state : σ) (asked : β)
  | decided (result : ρ)
  | complete (asked : γ)

variable {σ β ρ γ ι : Type}

/-- Look for the first element that decides, where each of them is examined in turn. -/
def scanStream (examine : σ → β → ι → Verdict σ β ρ γ) : σ → β → List ι → Verdict σ β ρ γ
  | state, asked, [] => .undecided state asked
  | state, asked, item :: rest =>
    match examine state asked item with
    | .undecided state asked => scanStream examine state asked rest
    | .decided result => .decided result
    | .complete asked => .complete asked

/-- More elements matter only where nothing is decided yet. -/
theorem scanStream_append (examine : σ → β → ι → Verdict σ β ρ γ) (items more : List ι)
    (state : σ) (asked : β) :
    scanStream examine state asked (items ++ more) =
      match scanStream examine state asked items with
      | .undecided state asked => scanStream examine state asked more
      | .decided result => .decided result
      | .complete asked => .complete asked := by
  induction items generalizing state asked with
  | nil => rfl
  | cons item rest ih =>
    rw [List.cons_append, scanStream, scanStream]
    cases examine state asked item with
    | undecided state asked => exact ih state asked
    | decided result => rfl
    | complete asked => rfl

/-- Where nothing is decided yet, one more element is examined by itself. -/
theorem scanStream_concat {examine : σ → β → ι → Verdict σ β ρ γ} {items : List ι}
    {state state' : σ} {asked asked' : β}
    (h : scanStream examine state asked items = .undecided state' asked') (item : ι) :
    scanStream examine state asked (items ++ [item]) = examine state' asked' item := by
  rw [scanStream_append, h]
  simp only [scanStream]
  cases examine state' asked' item <;> rfl

/-- The outcome a verdict has on the named stream, which has ended or may go on, unless a
submission has a say in it. -/
inductive Verdict.Decides {α : Type} (stream : String) (ended : Bool) :
    Verdict σ β (Except CallError α) γ → Except CallError α → Prop where
  | decided (result : Except CallError α) : Decides stream ended (.decided result) result
  | runsOut (state : σ) (asked : β) (h : ended = true) :
      Decides stream ended (.undecided state asked)
        (.error (.violation (.unexpectedEnd stream)))

/-- What is read off a stream as it arrives. -/
def Arrival.ofItem {μ : Type} : Except Cause μ → Arrival μ
  | .ok m => .message m
  | .error cause => .broken cause

/-- A message that is taken was the first one that had arrived. -/
theorem Inbox.arrivals_of_take_message {μ : Type} {inbox rest : Inbox μ} {stopped stops : Bool}
    {stream : String} {message : μ} (h : inbox.take stopped stream = .message message rest stops) :
    ∃ arrival, inbox = { rest with arrivals := arrival :: rest.arrivals } := by
  obtain ⟨arrivals, ended⟩ := inbox
  unfold take at h
  split at h
  · cases h
  · cases arrivals with
    | nil => cases ended <;> cases h
    | cons arrival arrivals => cases arrival <;> cases h <;> exact ⟨_, rfl⟩

/-- A call finds nothing to take where everything that has arrived was taken, and the stream has not
ended. -/
theorem Inbox.eq_empty_of_take_waiting {μ : Type} {inbox : Inbox μ} {stream : String}
    (h : inbox.take false stream = .waiting) : inbox = .empty := by
  obtain ⟨arrivals, ended⟩ := inbox
  cases arrivals with
  | cons arrival rest => cases arrival <;> cases h
  | nil =>
    cases ended with
    | true => cases h
    | false => rfl

end Sidecar
